import Stencil.Template.Basic
import Stencil.Value.Basic

/-!
# Checking data

Data fits a template when every record has the keys that the template declares. A key that is
bound to an inner template need not be there: without records the inner template stands for
nothing. The records under it have to fit the inner template.

The check stops at the first record that lacks a key. Records are visited in their order, and at
each record the keys of the template itself come before its inner templates, which are visited
in the order of their registration. The fault names the record by its path and lists the missing
keys in the order of their declaration.
-/

namespace Stencil

/-- Checks items one after another; a fault is located at the index of its item, the first one
having the index `start`. -/
def checkItems (check : Value → Except MissingKeys Unit) (start : Nat) :
    List Value → Except MissingKeys Unit
  | [] => .ok ()
  | item :: rest => do
    (check item).mapError (MissingKeys.under (.item start))
    checkItems check (start + 1) rest

namespace Template

/-- The declared keys that are not bound and that a record does not have. -/
def missingKeys (keys : List String) (bound : String → Bool) (record : Value) : List String :=
  keys.filter fun key => !bound key && (record.field? key).isNone

mutual

/-- Checks one record. -/
def checkRecord (t : Template) (record : Value) : Except MissingKeys Unit :=
  match t with
  | { keys, inner, .. } =>
    match missingKeys keys (fun key => (inner.lookup key).isSome) record with
    | [] => checkInner inner record
    | missing => .error { path := [], keys := missing }

/-- Checks what a record holds for inner templates. -/
def checkInner : List (String × Template) → Value → Except MissingKeys Unit
  | [], _ => .ok ()
  | (key, t) :: rest, record => do
    (checkItems (fun item => t.checkRecord item) 0 (record.recordsAt key)).mapError
      (MissingKeys.under (.field key))
    checkInner rest record

end

/-- Checks a sequence of records. -/
def checkRecords (t : Template) (records : List Value) : Except MissingKeys Unit :=
  checkItems t.checkRecord 0 records

/-- Checks data. -/
def check (t : Template) (data : Value) : Except MissingKeys Unit :=
  t.checkRecords data.records

end Template

end Stencil
