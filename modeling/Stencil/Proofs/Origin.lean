import Stencil.Proofs.Lineage

/-!
# Where the nodes of a session come from

A node of a session was made by one of the commands: it was compiled, built, or copied by a
registration. Since then it may have been cloned, and it may have received inner templates, but it
is still the same node. Its **origin** is the command that made it and the address at which that
command made it (`Chronicle.origin`). It is found by following the node back through the run, from
each command to the one before (`Command.source?`): a clone is followed to what it was cloned from.

Identities stand for origins (`Session.identities_of_commands`): two nodes have one identity exactly
when they have one origin. So within a tree all identities are distinct, nodes with one identity
were made of the same text, and a template is only ever taken for the receiver of its registration
if both were cloned from one node. What holds of the nodes and their origins after every run is said
in `Chronicle.Sound`.
-/

namespace Stencil

/-- A session with the origins of its nodes. -/
structure Chronicle where
  session : Session := {}
  /-- How many commands there were, those included that were refused. -/
  count : Nat := 0
  /-- For the node at an address, the number of the command that made it and the address at which
  the command made it. -/
  origin : Address → Nat × Address := fun address => (0, address)

namespace Chronicle

/-- The session after a command. A node that the command did not make keeps its origin. -/
def after (h : Chronicle) (c : Command) : Chronicle :=
  match h.session.run c with
  | .ok next => {
      session := next
      count := h.count + 1
      origin := fun address =>
        match c.source? address with
        | some source => h.origin source
        | none => (h.count, address) }
  | .error _ => { h with count := h.count + 1 }

/-- The session after a run of commands, from an empty one. -/
def ofCommands (commands : List Command) : Chronicle :=
  commands.foldl after {}

theorem ofCommands_concat (commands : List Command) (c : Command) :
    ofCommands (commands ++ [c]) = (ofCommands commands).after c := by
  rw [ofCommands, List.foldl_append, List.foldl_cons, List.foldl_nil, ofCommands]

theorem session_after (h : Chronicle) (c : Command) :
    (h.after c).session = h.session.after c := by
  unfold after Session.after
  cases h.session.run c with
  | ok next => rfl
  | error refusal => rfl

theorem session_ofCommands (commands : List Command) :
    (ofCommands commands).session = Session.ofCommands commands := by
  induction commands using List.reverseRecOn with
  | nil => rfl
  | append_singleton rest c ih =>
    rw [ofCommands_concat, session_after, ih, Session.ofCommands_concat]

/-- What holds of two nodes at their addresses: they have one identity exactly when they have one
origin, and then one stamp, and one place if they are in one tree. -/
structure Agree (origin : Address → Nat × Address) (a b : Address) (n m : Template) : Prop where
  shared : n.id = m.id ↔ origin a = origin b
  stamp : n.id = m.id → n.stamp = m.stamp
  place : n.id = m.id → a.slot = b.slot → a = b

/-- **The nodes of a session and their origins.** -/
structure Sound (h : Chronicle) : Prop where
  /-- The command that made a node is one of those before. -/
  past : ∀ {a n}, h.session.find? a = some n → (h.origin a).1 < h.count
  issued : ∀ {a n}, h.session.find? a = some n → n.id ∈ Supply.between {} h.session.supply
  agree : ∀ {a b n m}, h.session.find? a = some n → h.session.find? b = some m →
    Agree h.origin a b n m

variable {h : Chronicle} {c : Command} {s' : Session} {a b a' b' : Address} {n m : Template}

theorem Agree.refl (origin : Address → Nat × Address) (a : Address) (n : Template) :
    Agree origin a a n n :=
  ⟨iff_of_true rfl rfl, fun _ => rfl, fun _ _ => rfl⟩

theorem Agree.of_ne {origin : Address → Nat × Address} (hid : n.id ≠ m.id)
    (horigin : origin a ≠ origin b) : Agree origin a b n m :=
  ⟨iff_of_false hid horigin, fun heq => absurd heq hid, fun heq => absurd heq hid⟩

theorem sound_empty : Sound {} := by
  have hnone : ∀ {a n}, ({} : Session).find? a ≠ some n := by
    intro a n h
    cases h
  exact ⟨fun hn => absurd hn hnone, fun hn => absurd hn hnone, fun hn => absurd hn hnone⟩

/-! ### One more command -/

theorem after_of_ok (hrun : h.session.run c = .ok s') :
    h.after c = {
      session := s'
      count := h.count + 1
      origin := fun address =>
        match c.source? address with
        | some source => h.origin source
        | none => (h.count, address) } := by
  unfold after
  rw [hrun]

theorem origin_after_of_source? (hrun : h.session.run c = .ok s') (ha : c.source? a = some a') :
    (h.after c).origin a = h.origin a' := by
  rw [after_of_ok hrun]
  simp only [ha]

theorem origin_after_of_made (hrun : h.session.run c = .ok s') (ha : c.source? a = none) :
    (h.after c).origin a = (h.count, a) := by
  rw [after_of_ok hrun]
  simp only [ha]

/-- A node that a command does not make has its stamp from the session before. -/
theorem exists_of_source? (ht : h.session.Traced s' c) (ha : c.source? a = some a')
    (hn : s'.find? a = some n) : ∃ n', h.session.find? a' = some n' ∧ n'.stamp = n.stamp := by
  have hkept := ht.kept ha
  rw [hn, Option.map_some] at hkept
  exact Option.map_eq_some_iff.mp hkept.symm

/-- **A node that a command makes has an identity of its own**: no node that was there before has
it. -/
theorem Sound.id_ne_of_made (hs : h.Sound) (ht : h.session.Traced s' c)
    (hfew : s'.supply.drawn < 2 ^ 64) (ha : c.source? a = none) (hn : s'.find? a = some n)
    (hb : c.source? b = some b') (hm : s'.find? b = some m) : n.id ≠ m.id := by
  obtain ⟨m', hm', hstamp⟩ := exists_of_source? ht hb hm
  have hold := hs.issued hm'
  rw [Template.id_eq_of_stamp_eq hstamp] at hold
  intro hid
  have hnew := ht.fresh ha hn
  rw [hid] at hnew
  exact Supply.disjoint_between (Nat.zero_le _) ht.drawn_le (by omega) hold hnew

theorem Sound.origin_ne_of_made (hs : h.Sound) (ht : h.session.Traced s' c)
    (hrun : h.session.run c = .ok s') (ha : c.source? a = none) (hb : c.source? b = some b')
    (hm : s'.find? b = some m) : (h.after c).origin a ≠ (h.after c).origin b := by
  obtain ⟨m', hm', -⟩ := exists_of_source? ht hb hm
  rw [origin_after_of_made hrun ha, origin_after_of_source? hrun hb]
  intro heq
  exact Nat.ne_of_gt (hs.past hm') (congrArg Prod.fst heq)

/-- Two nodes after a command agree: they were both there before, or both were made, or one of them
was. -/
theorem Sound.agree_after (hs : h.Sound) (ht : h.session.Traced s' c)
    (hrun : h.session.run c = .ok s') (hfew : s'.supply.drawn < 2 ^ 64)
    (hn : s'.find? a = some n) (hm : s'.find? b = some m) :
    Agree (h.after c).origin a b n m := by
  cases ha : c.source? a with
  | none =>
    cases hb : c.source? b with
    | none =>
      -- both are made by this command, and only one node is made at an address
      by_cases hab : a = b
      · subst hab
        obtain rfl := Option.some.inj (hn.symm.trans hm)
        exact .refl _ a n
      · refine .of_ne (mt (ht.apart hfew ha hb hn hm) hab) ?_
        rw [origin_after_of_made hrun ha, origin_after_of_made hrun hb]
        exact fun heq => hab (congrArg Prod.snd heq)
    | some b' =>
      -- one is new, and the other was there before
      exact .of_ne (hs.id_ne_of_made ht hfew ha hn hb hm)
        (hs.origin_ne_of_made ht hrun ha hb hm)
  | some a' =>
    cases hb : c.source? b with
    | none =>
      exact .of_ne (hs.id_ne_of_made ht hfew hb hm ha hn).symm
        (hs.origin_ne_of_made ht hrun hb ha hn).symm
    | some b' =>
      obtain ⟨n', hn', hstamp⟩ := exists_of_source? ht ha hn
      obtain ⟨m', hm', hstamp'⟩ := exists_of_source? ht hb hm
      obtain ⟨hshared, hsame, hplace⟩ := hs.agree hn' hm'
      have hn' := Template.id_eq_of_stamp_eq hstamp
      have hm' := Template.id_eq_of_stamp_eq hstamp'
      rw [hn', hm'] at hshared hsame hplace
      refine ⟨?_, fun hid => ?_, fun hid hslot => ?_⟩
      · rw [origin_after_of_source? hrun ha, origin_after_of_source? hrun hb]
        exact hshared
      · rw [← hstamp, ← hstamp']
        exact hsame hid
      · -- nodes of one tree come from one tree
        obtain ⟨hslot', hback⟩ := Command.source?_apart ha hb hslot
        exact hback (hplace hid hslot')

/-- **A command that is carried out keeps origins right.** -/
theorem Sound.after (hs : h.Sound) (ht : h.session.Traced s' c)
    (hrun : h.session.run c = .ok s') (hfew : s'.supply.drawn < 2 ^ 64) :
    (h.after c).Sound := by
  have hsession : (h.after c).session = s' := by rw [after_of_ok hrun]
  have hcount : (h.after c).count = h.count + 1 := by rw [after_of_ok hrun]
  refine ⟨?past, ?issued, ?agree⟩
  case past =>
    intro a n hn
    rw [hsession] at hn
    rw [hcount]
    cases ha : c.source? a with
    | none =>
      rw [origin_after_of_made hrun ha]
      exact Nat.lt_succ_self _
    | some a' =>
      obtain ⟨n', hn', -⟩ := exists_of_source? ht ha hn
      rw [origin_after_of_source? hrun ha]
      exact Nat.lt_succ_of_lt (hs.past hn')
  case issued =>
    intro a n hn
    rw [hsession] at hn
    rw [hsession, ← Supply.between_append (Nat.zero_le h.session.supply.drawn) ht.drawn_le,
      List.mem_append]
    cases ha : c.source? a with
    | none => exact Or.inr (ht.fresh ha hn)
    | some a' =>
      obtain ⟨n', hn', hstamp⟩ := exists_of_source? ht ha hn
      rw [← Template.id_eq_of_stamp_eq hstamp]
      exact Or.inl (hs.issued hn')
  case agree =>
    intro a b n m hn hm
    rw [hsession] at hn hm
    exact hs.agree_after ht hrun hfew hn hm

theorem traced_ofCommands {commands : List Command}
    (hrun : (ofCommands commands).session.run c = .ok s') :
    (ofCommands commands).session.Traced s' c := by
  refine Session.traced_of_run (fun {a t} ht => ?_) hrun
  rw [session_ofCommands] at ht
  exact Session.all_settled_of_find? ht

/-- **Origins are right after every run** that draws fewer identities than there are. -/
theorem sound_ofCommands {commands : List Command}
    (hfew : (Session.ofCommands commands).supply.drawn < 2 ^ 64) :
    (ofCommands commands).Sound := by
  induction commands using List.reverseRecOn with
  | nil => exact sound_empty
  | append_singleton rest c ih =>
    rw [← session_ofCommands, ofCommands_concat, session_after, Session.after] at hfew
    rw [ofCommands_concat]
    have hsession := session_ofCommands rest
    -- identities are drawn and never put back, so too many were not drawn before either
    cases hrun : (ofCommands rest).session.run c with
    | ok s' =>
      rw [hrun] at hfew
      have htraced := traced_ofCommands hrun
      have hearlier := Nat.lt_of_le_of_lt htraced.drawn_le hfew
      rw [hsession] at hearlier
      exact (ih hearlier).after htraced hrun hfew
    | error refusal =>
      rw [hrun, hsession] at hfew
      obtain ⟨past, issued, agree⟩ := ih hfew
      unfold Chronicle.after
      rw [hrun]
      exact ⟨fun hn => Nat.lt_succ_of_lt (past hn), issued, agree⟩

end Chronicle

/-! ### Templates that can be made -/

namespace Session

variable {commands : List Command}

/-- The trees of a session have distinct identities. -/
theorem nodup_ids_of_find? (hfew : (ofCommands commands).supply.drawn < 2 ^ 64) {address : Address}
    {t : Template} (h : (ofCommands commands).find? address = some t) : t.ids.Nodup := by
  have hsound := Chronicle.sound_ofCommands hfew
  have hsession := Chronicle.session_ofCommands commands
  refine Template.nodup_ids ((all_settled_of_find? h).imp fun _ hn => hn.declared.distinct) ?_
  intro path path' n m hn hm hid
  rw [← find?_append h, ← hsession] at hn hm
  have hplace := (hsound.agree hn hm).place hid rfl
  exact List.append_cancel_left (Address.mk.inj hplace).2

theorem run_register_eq_itself_iff {target inner : Address} {t i : Template}
    (ht : (ofCommands commands).find? target = some t)
    (hi : (ofCommands commands).find? inner = some i) (key : String) :
    (ofCommands commands).run (.register target key inner) = .error (.fault (.binding .itself)) ↔
      Text.trim key ≠ "" ∧ i.id = t.id := by
  have hrefuses : t.register key i (ofCommands commands).supply = .error (.binding .itself) ↔
      Text.trim key ≠ "" ∧ i.id = t.id := by
    rw [Template.register_eq_error_iff (all_settled_of_find? ht) (all_settled_of_find? hi)]
    refine ⟨?_, fun ⟨visible, same⟩ => ⟨_, .itself visible same, rfl⟩⟩
    rintro ⟨reason, hreason, heq⟩
    cases hreason with
    | itself visible same => exact ⟨visible, same⟩
    | blankKey | takenKey => cases heq
  rw [← hrefuses]
  rcases run_register_cases ht hi key with ⟨fault, hfault, hrun, -⟩ | ⟨r, s', hr, hrun, -⟩
  · rw [hfault, hrun]
    simp
  · rw [hr, hrun]
    simp

/-- **Identities stand for origins**, in every session that comes from a run of commands and drew
fewer identities than there are.

* All identities in a tree are distinct.
* Two nodes have one identity exactly when they have one origin, so that both are that node or
  clones of it, and then they have the same text, keys, configuration and size. A template is taken
  for the receiver of its registration in this case and in no other.
* After a registration that is carried out, the identities of the copy are nowhere else. -/
theorem identities_of_commands (hfew : (ofCommands commands).supply.drawn < 2 ^ 64) :
    (∀ address t, (ofCommands commands).find? address = some t → t.ids.Nodup) ∧
    (∀ a b t u, (ofCommands commands).find? a = some t → (ofCommands commands).find? b = some u →
      (t.id = u.id ↔
        (Chronicle.ofCommands commands).origin a = (Chronicle.ofCommands commands).origin b) ∧
      (t.id = u.id →
        t.text = u.text ∧ t.keys = u.keys ∧ t.config = u.config ∧ t.size = u.size) ∧
      ∀ key, (ofCommands commands).run (.register a key b) =
          .error (.fault (.binding .itself)) ↔
        Text.trim key ≠ "" ∧
          (Chronicle.ofCommands commands).origin a = (Chronicle.ofCommands commands).origin b) ∧
    ∀ target key inner s', (ofCommands commands).run (.register target key inner) = .ok s' →
      s'.supply.drawn < 2 ^ 64 →
      ∀ a b t u, s'.find? a = some t → s'.find? b = some u →
        a.Below ⟨target.slot, target.path ++ [key]⟩ →
          ¬ b.Below ⟨target.slot, target.path ++ [key]⟩ → t.id ≠ u.id := by
  have hsound := Chronicle.sound_ofCommands hfew
  have hsession := Chronicle.session_ofCommands commands
  refine ⟨fun address t h => nodup_ids_of_find? hfew h, ?nodes, ?copy⟩
  case nodes =>
    intro a b t u ht hu
    rw [← hsession] at ht hu
    obtain ⟨hshared, hstamp, -⟩ := hsound.agree ht hu
    rw [hsession] at ht hu
    refine ⟨hshared, fun hid => ?_, fun key => ?_⟩
    · obtain ⟨-, htext, hconfig, hkeys, hsize⟩ := Template.stamp_eq_iff.mp (hstamp hid)
      exact ⟨htext, hkeys, hconfig, hsize⟩
    · rw [run_register_eq_itself_iff ht hu, ← hshared, eq_comm]
  case copy =>
    intro target key inner s' hrun hfew' a b t u ht hu ha hb
    rw [← hsession] at hrun
    have htraced := Chronicle.traced_ofCommands hrun
    exact hsound.id_ne_of_made htraced hfew' (if_pos ha) ht (if_neg hb) hu

/-- A template and a clone of it, and a copy of it in a page. -/
def copied : List Command :=
  [.compile "item" "{{value}}" {}, .clone "same" ⟨"item", []⟩, .compile "page" "{{item}}" {},
    .register ⟨"page", []⟩ "item" ⟨"item", []⟩]

/-- The clone is taken for the template, and the copy is not. -/
theorem identities_of_commands_copied :
    ∃ t u v, (ofCommands copied).supply.drawn < 2 ^ 64 ∧
      (ofCommands copied).find? ⟨"item", []⟩ = some t ∧
      (ofCommands copied).find? ⟨"same", []⟩ = some u ∧
      (ofCommands copied).find? ⟨"page", ["item"]⟩ = some v ∧
      t.id = u.id ∧ t.size = u.size ∧ v.id ≠ t.id ∧
      (ofCommands copied).run (.register ⟨"same", []⟩ "value" ⟨"item", []⟩) =
        .error (.fault (.binding .itself)) ∧
      (ofCommands copied).run (.register ⟨"page", ["item"]⟩ "value" ⟨"item", []⟩) ≠
        .error (.fault (.binding .itself)) ∧
      ∃ s', (ofCommands copied).run (.register ⟨"page", ["item"]⟩ "value" ⟨"item", []⟩) = .ok s' ∧
        s'.supply.drawn < 2 ^ 64 ∧
        ∀ c, s'.find? ⟨"page", ["item", "value"]⟩ = some c →
          ∀ d, s'.find? ⟨"item", []⟩ = some d → c.id ≠ d.id := by
  have hfew : (ofCommands copied).supply.drawn < 2 ^ 64 := by decide +kernel
  have hfind : ((ofCommands copied).find? ⟨"item", []⟩).isSome = true ∧
      ((ofCommands copied).find? ⟨"same", []⟩).isSome = true ∧
      ((ofCommands copied).find? ⟨"page", ["item"]⟩).isSome = true := by
    decide +kernel
  obtain ⟨ht, hu, hv⟩ := hfind
  obtain ⟨t, ht⟩ := Option.isSome_iff_exists.mp ht
  obtain ⟨u, hu⟩ := Option.isSome_iff_exists.mp hu
  obtain ⟨v, hv⟩ := Option.isSome_iff_exists.mp hv
  have horigins : (Chronicle.ofCommands copied).origin ⟨"item", []⟩ = (0, ⟨"item", []⟩) ∧
      (Chronicle.ofCommands copied).origin ⟨"same", []⟩ = (0, ⟨"item", []⟩) ∧
      (Chronicle.ofCommands copied).origin ⟨"page", ["item"]⟩ = (3, ⟨"page", ["item"]⟩) := by
    decide +kernel
  obtain ⟨hitem, hsame, hcopy⟩ := horigins
  have hrun : ((ofCommands copied).run
      (.register ⟨"page", ["item"]⟩ "value" ⟨"item", []⟩)).toOption.any
        (fun s' => decide (s'.supply.drawn < 2 ^ 64)) = true := by
    decide +kernel
  obtain ⟨-, hnodes, hregister⟩ := identities_of_commands hfew
  obtain ⟨htu, hstamp, -⟩ := hnodes _ _ t u ht hu
  obtain ⟨hvt, -, hcopied⟩ := hnodes _ _ v t hv ht
  obtain ⟨-, -, hclone⟩ := hnodes _ _ u t hu ht
  have hid : t.id = u.id := htu.mpr (hitem.trans hsame.symm)
  have hother : (Chronicle.ofCommands copied).origin ⟨"page", ["item"]⟩ ≠
      (Chronicle.ofCommands copied).origin ⟨"item", []⟩ := by
    rw [hcopy, hitem]
    decide
  refine ⟨t, u, v, hfew, ht, hu, hv, hid, (hstamp hid).2.2.2, mt hvt.mp hother,
    (hclone "value").mpr ⟨by decide, hsame.trans hitem.symm⟩,
    fun h => hother ((hcopied "value").mp h).2, ?_⟩
  cases hresult : (ofCommands copied).run
      (.register ⟨"page", ["item"]⟩ "value" ⟨"item", []⟩) with
  | error refusal =>
    rw [hresult] at hrun
    cases hrun
  | ok s' =>
    rw [hresult] at hrun
    have hfew' : s'.supply.drawn < 2 ^ 64 := of_decide_eq_true hrun
    exact ⟨s', rfl, hfew', fun c hc d hd =>
      hregister _ _ _ s' hresult hfew' _ _ c d hc hd (by decide) (by decide)⟩

end Session

end Stencil
