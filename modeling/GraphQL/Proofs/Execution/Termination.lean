import GraphQL.Proofs.Document.Inlining
import GraphQL.Proofs.Execution.Run
import GraphQL.Proofs.Selection.Walk

/-! # Executions that come to an end

Resolvers may return objects that have themselves for fields, but fields nest only as deep as the
document lets them. If its fragments do not reach themselves, that is a depth within which every
execution comes to an end. -/

namespace GraphQL

variable {State Object Item α β : Type}

/-- Fields nest at most this deep in a selection in which all fragments are opened. -/
inductive Selection.Nests (fragments : Catalog Fragment) : Nat → Selection → Prop
  | field {depth head selections}
      (below : ∀ selection ∈ selections, Nests fragments depth selection) :
      Nests fragments (depth + 1) (.field head selections)
  | spread {depth fragment directives}
      (body : ∀ definition, fragments.find? fragment = some definition →
        ∀ selection ∈ definition.selections, Nests fragments depth selection) :
      Nests fragments depth (.spread fragment directives)
  | inlineFragment {depth condition? directives selections}
      (body : ∀ selection ∈ selections, Nests fragments depth selection) :
      Nests fragments depth (.inlineFragment condition? directives selections)

theorem Selection.Nests.mono {fragments : Catalog Fragment} {depth depth' : Nat}
    {selection : Selection} (h : selection.Nests fragments depth) (hle : depth ≤ depth') :
    selection.Nests fragments depth' := by
  induction h generalizing depth' with
  | field _ ih =>
      obtain ⟨depth', rfl⟩ := Nat.exists_eq_add_of_le' (Nat.le_of_add_left_le hle)
      exact .field fun selection hmem => ih selection hmem (by omega)
  | spread _ ih =>
      exact .spread fun definition found selection hmem => ih definition found selection hmem hle
  | inlineFragment _ ih =>
      exact .inlineFragment fun selection hmem => ih selection hmem hle

/-- Selections nest as deep as they do once their spreads have been replaced. -/
theorem Inlines.exists_nests {includes : List Directive → Bool} {fragments : Catalog Fragment}
    {selections selections' : List Selection}
    (h : Inlines includes fragments selections selections') :
    ∃ depth, ∀ selection ∈ selections, selection.Nests fragments depth := by
  induction h with
  | nil => exact ⟨0, by simp⟩
  | field _ _ ihbelow ih =>
      obtain ⟨below, hbelow⟩ := ihbelow
      obtain ⟨depth, hrest⟩ := ih
      refine ⟨max (below + 1) depth, List.forall_mem_cons.mpr ⟨?_, fun selection hmem => ?_⟩⟩
      · exact (Selection.Nests.field hbelow).mono (Nat.le_max_left _ _)
      · exact (hrest selection hmem).mono (Nat.le_max_right _ _)
  | undefined undefined _ ih =>
      obtain ⟨depth, hrest⟩ := ih
      refine ⟨depth, List.forall_mem_cons.mpr ⟨.spread fun definition found => ?_, hrest⟩⟩
      simp [undefined] at found
  | spread found _ _ _ ihbelow ih =>
      obtain ⟨below, hbelow⟩ := ihbelow
      obtain ⟨depth, hrest⟩ := ih
      refine ⟨max below depth, List.forall_mem_cons.mpr ⟨?_, fun selection hmem => ?_⟩⟩
      · refine .spread fun definition found' selection hmem => ?_
        cases found.symm.trans found'
        exact (hbelow selection hmem).mono (Nat.le_max_left _ _)
      · exact (hrest selection hmem).mono (Nat.le_max_right _ _)
  | inline _ _ ihbelow ih =>
      obtain ⟨below, hbelow⟩ := ihbelow
      obtain ⟨depth, hrest⟩ := ih
      refine ⟨max below depth, List.forall_mem_cons.mpr ⟨?_, fun selection hmem => ?_⟩⟩
      · exact (Selection.Nests.inlineFragment hbelow).mono (Nat.le_max_left _ _)
      · exact (hrest selection hmem).mono (Nat.le_max_right _ _)

/-- Without cycles, there is a depth that fields never exceed. -/
theorem Catalog.Acyclic.exists_nests {fragments : Catalog Fragment} (acyclic : fragments.Acyclic)
    (selections : List Selection) :
    ∃ depth, ∀ selection ∈ selections, selection.Nests fragments depth := by
  -- Any directives and types will do, as long as no spread is left out.
  let scope : Scope := { includes := fun _ => true, applies := fun _ => true, fragments }
  exact (scope.inlines_inline acyclic (fun _ _ _ _ => rfl) fun _ _ => rfl).exists_nests

namespace Scope

variable {scope : Scope}

variable (scope) in
/-- Below every group of fields, fields nest less deep by one. -/
theorem nests_collectFields {selections : List Selection} {depth : Nat}
    (hnests : ∀ selection ∈ selections, selection.Nests scope.fragments depth) :
    ∀ group ∈ scope.collectFields selections, ∃ below, depth = below + 1 ∧
      ∀ selection ∈ group.selections, selection.Nests scope.fragments below := by
  intro group hmem
  have hnodes : ∀ node ∈ group.nodes,
      (Selection.field node.toFieldHead node.selections).Nests scope.fragments depth := by
    refine scope.forall_collectFields ?_ ?_ hnests group hmem
    · intro fragment directives definition found hspread
      cases hspread with
      | spread body => exact body definition found
    · intro condition? directives selections hinline
      cases hinline with
      | inlineFragment body => exact body
  cases hnodes group.first List.mem_cons_self with
  | @field below _ _ _ =>
      refine ⟨below, rfl, fun selection hselection => ?_⟩
      obtain ⟨node, hnode, hselection⟩ := List.mem_flatMap.mp hselection
      cases hnodes node hnode with
      | field hbelow => exact hbelow selection hselection

end Scope

/-! ## Filling and completion -/

namespace Exec

/-- A computation comes to an end, whatever state it starts in. -/
def Ends (computation : Exec State α) : Prop := ∀ state, (computation state).isSome

namespace Ends

theorem pure (value : α) : Ends (Pure.pure value : Exec State α) := fun _ => rfl

theorem fail (error : FieldError) : Ends (Exec.fail error : Exec State α) := fun _ => rfl

theorem call (hook : StateM State α) : Ends (Exec.call hook) := fun _ => rfl

theorem bind {first : Exec State α} {next : α → Exec State β} (h : Ends first)
    (hnext : ∀ value, Ends (next value)) : Ends (first >>= next) := by
  intro state
  obtain ⟨⟨outcome, errors, middle⟩, hstep⟩ := Option.isSome_iff_exists.mp (h state)
  cases outcome with
  | nulled => simp [Exec.bind_of_nulled hstep]
  | value value =>
      rw [Exec.bind_of_value hstep, Option.isSome_map]
      exact hnext value middle

theorem map {computation : Exec State α} (h : Ends computation) (f : α → β) :
    Ends (f <$> computation) := by
  rw [← bind_pure_comp]
  exact h.bind fun value => .pure (f value)

theorem nullify {computation : Exec State Json} (h : Ends computation) (type : TypeRef) :
    Ends (Exec.nullify type computation) := by
  intro state
  rw [Exec.nullify, Option.isSome_map]
  exact h state

end Ends

end Exec

namespace Completion

variable (env : Environment State Object Item) (execute : ObjectExecutor State Object Item)
  (path : Path)

/-- Fills one place. -/
def fillOne (pending : Pending State Object Item) : Exec State Json :=
  Exec.nullify pending.type
    (Exec.call pending.resolve >>=
      complete env execute pending.info pending.type (path ++ [pending.segment]))

theorem fill_cons_eq (pending : Pending State Object Item)
    (rest : List (Pending State Object Item)) :
    fill env execute path (pending :: rest) =
      fillOne env execute path pending >>= fun value =>
        (fun values => (pending.segment, value) :: values) <$> fill env execute path rest := by
  simp [fill, fillOne]

variable {env execute path}

/-- Filling comes to an end if each place is filled. -/
theorem ends_fill {pendings : List (Pending State Object Item)}
    (h : ∀ pending ∈ pendings, (fillOne env execute path pending).Ends) :
    (fill env execute path pendings).Ends := by
  induction pendings with
  | nil => exact .pure []
  | cons pending rest ih =>
      obtain ⟨hhead, htail⟩ := List.forall_mem_cons.mp h
      rw [fill_cons_eq]
      exact hhead.bind fun value => (ih htail).map _

variable {info : ResolveInfo Object Item}

theorem ends_of_items
    (hexecute : ∀ path type source, (execute path type source info.group.selections).Ends)
    {type : TypeRef}
    (hitem : ∀ item nonNull, type = .list item nonNull →
      ∀ path resolved, (complete env execute info item path resolved).Ends)
    (path : Path) (resolved : Except Failure (Resolved Object Item)) :
    (complete env execute info type path resolved).Ends := by
  intro state
  rw [complete_apply]
  have hfits := gives_examine env info type resolved state
  generalize ((examine env info type resolved).run state).1 = finding at hfits ⊢
  cases hfits with
  | failed failure => exact Exec.Ends.fail _ _
  | null | leaf => rfl
  | list items =>
      rw [conclude_list]
      refine Exec.Ends.map (ends_fill fun pending hmem => ?_) _ _
      obtain ⟨hinfo, htype⟩ := mem_itemsOf hmem
      rw [fillOne, hinfo, htype]
      exact ((Exec.Ends.call _).bind fun resolved => hitem _ _ rfl _ resolved).nullify _
  | object source _ => exact Exec.Ends.bind (hexecute path _ source) (fun _ => .pure _) _

/-- Completion comes to an end if the objects that it may come to are executed to an end. -/
theorem ends_complete
    (hexecute : ∀ path type source, (execute path type source info.group.selections).Ends)
    (type : TypeRef) (path : Path) (resolved : Except Failure (Resolved Object Item)) :
    (complete env execute info type path resolved).Ends := by
  induction type generalizing path resolved with
  | named name nonNull => exact ends_of_items hexecute (by simp) path resolved
  | list item nonNull ih =>
      refine ends_of_items hexecute ?_ path resolved
      rintro _ _ ⟨⟩
      exact ih

end Completion

namespace Environment

variable {env : Environment State Object Item}

/-- An execution that ends within some depth ends alike within every depth that is great enough. -/
theorem executeSelections_settles {depth : Nat} {path : Path} {type : ObjectType}
    {source : Resolved Object Item} {selections : List Selection} {state : State}
    {step : Step State Members}
    (h : env.executeSelections depth path type source selections state = some step) :
    ∃ bound, ∀ depth' ≥ bound,
      env.executeSelections depth' path type source selections state = some step := by
  cases depth with
  | zero => cases h
  | succ depth =>
      rw [executeSelections_succ, Exec.map_apply] at h
      obtain ⟨below, hbelow, hstep⟩ := Option.map_eq_some_iff.mp h
      obtain ⟨children, next, hchildren, rfl⟩ :=
        Completion.fill_derivation env _ path _
          (fun pending _ => env.complete_derivation depth _ _ _) state below hbelow
      obtain ⟨bound, hbound⟩ := hchildren.execution
      refine ⟨bound + 1, ?_⟩
      intro depth' hdepth
      obtain ⟨depth', rfl⟩ := Nat.exists_eq_add_of_le' (Nat.le_of_add_left_le hdepth)
      rw [executeSelections_succ, Exec.map_apply, hbound depth' (by omega), Option.map_some, hstep]

/-- Fields are executed to an end if what lies below them is. -/
theorem ends_of_fields {depth : Nat} {type : ObjectType} {selections : List Selection}
    (h : ∀ group ∈ (env.scope type).collectFields selections, ∀ path type source,
      (env.executeSelections depth path type source group.selections).Ends)
    (path : Path) (source : Resolved Object Item) :
    (env.executeSelections (depth + 1) path type source selections).Ends := by
  rw [executeSelections_succ]
  refine Exec.Ends.map (Completion.ends_fill fun pending hmem => ?_) _
  obtain ⟨⟨group, definition⟩, hfield, rfl⟩ := List.mem_map.mp hmem
  obtain ⟨hgroup, -⟩ := mem_selectedFields hfield
  refine ((Exec.Ends.call _).bind fun resolved => ?_).nullify _
  exact Completion.ends_complete (h group hgroup) _ _ resolved

/-- Executions come to an end within any depth that fields do not exceed. -/
theorem ends_of_nests {depth : Nat} {selections : List Selection}
    (hnests : ∀ selection ∈ selections, selection.Nests env.request.fragments depth)
    {bound : Nat} (hbound : depth < bound) (path : Path) (type : ObjectType)
    (source : Resolved Object Item) :
    (env.executeSelections bound path type source selections).Ends := by
  induction bound generalizing depth path type source selections with
  | zero => cases hbound
  | succ bound ih =>
      refine ends_of_fields (fun group hmem => ?_) path source
      have hgroup := (env.scope type).nests_collectFields hnests group hmem
      obtain ⟨below, rfl, hbelow⟩ := hgroup
      exact ih hbelow (Nat.lt_of_succ_lt_succ hbound)

/-- If no fragment reaches itself, executions come to an end, whatever hooks return. -/
theorem ends_of_acyclic (acyclic : env.request.fragments.Acyclic) (selections : List Selection) :
    ∃ bound, ∀ depth > bound, ∀ path type source,
      (env.executeSelections depth path type source selections).Ends := by
  obtain ⟨bound, hnests⟩ := acyclic.exists_nests selections
  exact ⟨bound, fun depth hdepth => ends_of_nests hnests hdepth⟩

end Environment

end GraphQL
