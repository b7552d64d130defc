import GraphQL.Proofs.Response.Failures

/-! # The order of a run

A run goes depth first: what lies above comes before what lies below, and where two paths part, the
place that is pending first is filled first, with all that lies below it. On the places of a run
this is a strict order. -/

namespace GraphQL

variable {State Object Item : Type}

/-! ## Paths that part -/

/-- Two paths that part do so at one place. -/
theorem Path.parting {common common' rest rest' later later' : Path}
    {first first' second second' : PathSegment} (hne : first ≠ second) (hne' : first' ≠ second')
    (h : common ++ first :: rest = common' ++ first' :: rest')
    (hlater : common ++ second :: later = common' ++ second' :: later') :
    common = common' ∧ first = first' ∧ second = second' := by
  induction common generalizing common' with
  | nil =>
      cases common' with
      | nil => exact ⟨rfl, (List.cons.inj h).1, (List.cons.inj hlater).1⟩
      | cons segment common' =>
          have hfirst := (List.cons.inj h).1
          have hsecond := (List.cons.inj hlater).1
          exact absurd (hfirst.trans hsecond.symm) hne
  | cons segment common ih =>
      cases common' with
      | nil =>
          have hfirst := (List.cons.inj h).1
          have hsecond := (List.cons.inj hlater).1
          exact absurd (hfirst.symm.trans hsecond) hne'
      | cons segment' common' =>
          obtain ⟨rfl, hrest⟩ := List.cons.inj h
          obtain ⟨rfl, rfl, rfl⟩ := ih hrest (List.cons.inj hlater).2
          exact ⟨rfl, rfl, rfl⟩

theorem not_pair_sublist_of_nodup {α : Type} {list : List α} {a b : α} (distinct : list.Nodup)
    (h : [a, b].Sublist list) : ¬ [b, a].Sublist list := by
  induction list with
  | nil => cases h
  | cons x rest ih =>
      obtain ⟨hx, hrest⟩ := List.nodup_cons.mp distinct
      intro h'
      cases h with
      | cons _ h =>
          cases h' with
          | cons _ h' => exact ih hrest h h'
          | cons_cons => exact hx (h.subset (by simp))
      | cons_cons _ hb =>
          cases h' with
          | cons _ h' => exact hx (h'.subset (by simp))
          | cons_cons => exact hx (hb.subset (by simp))

/-- In a list without repetition, entries of an initial part are in the order of the whole. -/
theorem pair_sublist_of_prefix {α : Type} {initial list : List α} {a b : α}
    (distinct : list.Nodup) (hinitial : initial <+: list) (ha : a ∈ initial) (hb : b ∈ initial)
    (h : [a, b].Sublist list) : [a, b].Sublist initial := by
  obtain ⟨rest, rfl⟩ := hinitial
  obtain ⟨-, -, hapart⟩ := List.nodup_append.mp distinct
  obtain ⟨front, back, hpair, hfront, hback⟩ := List.sublist_append_iff.mp h
  match front, hpair with
  | [], hpair =>
      obtain rfl : [a, b] = back := hpair
      exact absurd rfl (hapart a ha a (hback.subset (by simp)))
  | [_], hpair =>
      obtain ⟨rfl, rfl⟩ := List.cons.inj hpair
      exact absurd rfl (hapart b hb b (hback.subset (by simp)))
  | [_, _], hpair =>
      obtain ⟨rfl, htail⟩ := List.cons.inj hpair
      obtain ⟨rfl, -⟩ := List.cons.inj htail
      exact hfront
  | _ :: _ :: _ :: _, hpair => simp at hpair

/-- Of two places one comes before the other at most. -/
theorem Slot.Precedes.asymm {slot : Slot} (hvalid : slot.Valid) {path later : Path}
    (h : slot.Precedes path later) : ¬ slot.Precedes later path := by
  rintro ⟨common', second', first', later', rest', parent', hlater, hpath, hparent', hsublist'⟩
  obtain ⟨common, first, second, rest, later, parent, rfl, rfl, hparent, hsublist⟩ := h
  have hne : first ≠ second := by
    simpa using hsublist.nodup (hvalid.find? hparent).nodup_keys
  have hne' : first' ≠ second' := by
    simpa [eq_comm] using hsublist'.nodup (hvalid.find? hparent').nodup_keys
  -- The paths part at one place only, whose keys cannot stand in both orders.
  obtain ⟨rfl, rfl, rfl⟩ := Path.parting hne hne' hpath hlater
  obtain rfl := Option.some.inj (hparent.symm.trans hparent')
  exact not_pair_sublist_of_nodup (hvalid.find? hparent).nodup_keys hsublist hsublist'

/-! ## Places that the run comes to -/

section

variable {env : Environment State Object Item} {type : ObjectType} {state last : State}
  {record : Slot}

theorem Reaches.nodup {path : Path} {pendings : List (Pending State Object Item)} {before : State}
    (reached : Reaches env type state path pendings before) :
    (pendings.map Pending.segment).Nodup := by
  induction reached with
  | root | fields => exact env.nodup_fieldsOf _ _ _ _
  | next _ _ _ _ ih => exact (List.nodup_cons.mp ih).2
  | items => exact Completion.nodup_itemsOf _ _ _

/-- The places recorded below a path are the first of those that were pending there at the
start. -/
theorem Reaches.listing (h : RunDerivation env type state record last) {path : Path}
    {pendings : List (Pending State Object Item)} {before : State}
    (reached : Reaches env type state path pendings before) :
    ∃ parent earlier, record.find? path = some parent ∧
      (earlier ++ pendings.map Pending.segment).Nodup ∧
      Entries.keys parent.2.children <+: earlier ++ pendings.map Pending.segment := by
  induction reached with
  | root =>
      obtain ⟨below⟩ := h
      exact ⟨_, [], rfl, env.nodup_fieldsOf _ _ _ _, below.keys_initial⟩
  | @next _ pending rest _ _ _ _ _ _ _ _ _ ih =>
      obtain ⟨parent, earlier, hparent, hnodup, hinitial⟩ := ih
      have hlisting : earlier ++ (pending :: rest).map Pending.segment =
          (earlier ++ [pending.segment]) ++ rest.map Pending.segment := by simp
      rw [hlisting] at hnodup hinitial
      exact ⟨parent, _, hparent, hnodup, hinitial⟩
  | items reached call found =>
      obtain ⟨place, next, hfind, hplace⟩ := (Asks.intro reached call).derivation h
      obtain ⟨children, rfl, below⟩ := hplace.concludes found
      exact ⟨_, [], hfind, Completion.nodup_itemsOf _ _ _, below.keys_initial⟩
  | fields reached call found =>
      obtain ⟨place, next, hfind, hplace⟩ := (Asks.intro reached call).derivation h
      obtain ⟨children, rfl, below⟩ := hplace.concludes found
      exact ⟨_, [], hfind, env.nodup_fieldsOf _ _ _ _, below.keys_initial⟩

theorem Slot.mem_keys_of_find? {slot parent lower : Slot} {common rest : Path}
    {segment : PathSegment} (hparent : slot.find? common = some parent)
    (h : slot.find? (common ++ segment :: rest) = some lower) :
    segment ∈ Entries.keys parent.2.children := by
  rw [find?_append, hparent, Option.bind_some, find?_cons] at h
  obtain ⟨child, hchild, -⟩ := Option.bind_eq_some_iff.mp h
  exact List.mem_map.mpr ⟨_, Entries.mem_of_get? hchild, rfl⟩

/-- Places of the record are in the order of the run. -/
theorem RunsBefore.precedes (h : RunDerivation env type state record last) {path later : Path}
    (hbefore : RunsBefore env type state path later) {slot slot' : Slot}
    (hpath : record.find? path = some slot) (hlater : record.find? later = some slot') :
    record.Precedes path later := by
  obtain ⟨common, first, second, rest, rest', pendings, before, rfl, rfl, hreached, hsublist⟩ :=
    hbefore
  obtain ⟨parent, earlier, hparent, hnodup, hinitial⟩ := hreached.listing h
  have hpair : [first, second].Sublist (earlier ++ pendings.map Pending.segment) :=
    hsublist.trans (List.sublist_append_right earlier _)
  exact ⟨common, first, second, rest, rest', parent, rfl, rfl, hparent,
    pair_sublist_of_prefix hnodup hinitial (Slot.mem_keys_of_find? hparent hpath)
      (Slot.mem_keys_of_find? hparent hlater) hpair⟩

/-- Paths that part do not lie one below the other. -/
theorem RunsBefore.apart {path later : Path} (h : RunsBefore env type state path later) :
    ¬ path <+: later ∧ ¬ later <+: path := by
  obtain ⟨common, first, second, rest, rest', pendings, before, rfl, rfl, hreached, hsublist⟩ := h
  have hne : first ≠ second := by simpa using hsublist.nodup hreached.nodup
  simp [List.prefix_append_right_inj, List.cons_prefix_cons, hne, hne.symm]

end

/-- One place comes before another one depth first: the other one lies below it, or it is reached
earlier where their paths part. -/
def DepthFirst (env : Environment State Object Item) (type : ObjectType) (state : State)
    (path later : Path) : Prop :=
  path <+: later ∨ RunsBefore env type state path later

/-- Depth first, different places of a run come one before the other, but not the other way
round. -/
theorem DepthFirst.asymm {env : Environment State Object Item} {type : ObjectType}
    {state last : State} {record : Slot} (h : RunDerivation env type state record last)
    {path later : Path} {slot slot' : Slot} (hpath : record.find? path = some slot)
    (hlater : record.find? later = some slot') (hne : path ≠ later)
    (hfirst : DepthFirst env type state path later) : ¬ DepthFirst env type state later path := by
  rintro (habove | hbefore)
  · rcases hfirst with hfirst | hfirst
    · exact hne (hfirst.eq_of_length (Nat.le_antisymm hfirst.length_le habove.length_le))
    · exact hfirst.apart.2 habove
  · rcases hfirst with hfirst | hfirst
    · exact hbefore.apart.2 hfirst
    · exact (hfirst.precedes h hpath hlater).asymm h.valid (hbefore.precedes h hlater hpath)

end GraphQL
