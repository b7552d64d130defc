import GraphQL.Proofs.Execution.AnyOrder
import GraphQL.Proofs.Execution.Depth
import GraphQL.Proofs.Response.Projection

/-! # How deep JSON nests

Where no field has a resolver, the objects below a JSON root are parts of it: a field of an object
has one of its members, and an item of a list one of its items. So selection sets nest no deeper
than the data, whatever fragments do. The name of a type is not a part of the data, but in a valid
schema it is never taken for an object. -/

namespace GraphQL

variable {State Object Item : Type}

namespace Schema

/-! ## The name of a type -/

/-- No object comes of the name of a type, where `__typename` is answered with it. Every valid
schema is such a schema: `NamesValid.typenameIsLeaf`. -/
def TypenameIsLeaf (schema : Schema) : Prop :=
  ∀ type definition name nonNull, schema.field? type "__typename" = some definition →
    definition.type = .named name nonNull → ∀ object, ¬schema.Admits name object

/-- The rules of validation on names: a field whose name begins with two underscores is left to
introspection, and `String` is the scalar. -/
structure NamesValid (schema : Schema) : Prop where
  fields : ∀ definition ∈ schema.types.entries, ∀ name field,
    definition.ownField? name = some field → ¬['_', '_'] <+: name.toList
  string : schema.type? "String" = some (.scalar "String")

namespace NamesValid

variable {schema : Schema}

theorem ownField?_typename (valid : schema.NamesValid) {definition : TypeDefinition}
    (hmem : definition ∈ schema.types.entries) : definition.ownField? "__typename" = none := by
  cases hown : definition.ownField? "__typename" with
  | none => rfl
  | some field => exact absurd (by decide) (valid.fields definition hmem _ field hown)

theorem field?_typename (valid : schema.NamesValid) {type : String} {field : FieldDefinition}
    (h : schema.field? type "__typename" = some field) : field = typenameField := by
  obtain ⟨definition, htype, hfield⟩ := Option.bind_eq_some_iff.mp h
  simp only [valid.ownField?_typename (Catalog.mem_of_find? htype)] at hfield
  split_ifs at hfield with hcomposite hquery
  · exact (Option.some.inj hfield).symm
  · cases hfield

/-- In a valid schema, `__typename` is the built-in String. -/
theorem typenameIsLeaf (valid : schema.NamesValid) : schema.TypenameIsLeaf := by
  intro type field name nonNull hfield htype object admits
  rw [valid.field?_typename hfield] at htype
  cases htype
  cases admits with
  | itself found => cases valid.string.symm.trans found
  | possible found possible => simp [isPossibleType, valid.string] at possible

end NamesValid

end Schema

namespace Completion

/-! ## Where lists and objects come from -/

/-- What was found to be a list or an object is the value that was examined. -/
inductive IsPart (service : Service State Object Item) :
    Except Failure (Resolved Object Item) → Finding State Object Item → Prop
  | failed {resolved} (failure : Failure) : IsPart service resolved (.failed failure)
  | null {resolved} : IsPart service resolved .null
  | leaf {resolved} (value : Json) : IsPart service resolved (.leaf value)
  | list {value item items} (found : items? service value = some items) :
      IsPart service (.ok value) (.list item items)
  | object {value} (type : ObjectType) (present : Resolved.isNull value = false) :
      IsPart service (.ok value) (.object type value)

section

variable (env : Environment State Object Item) (info : ResolveInfo Object Item)

theorem isPart_examineLeaf (definition : TypeDefinition) (value : Resolved Object Item) :
    Gives (examineLeaf env definition value) (IsPart env.service (.ok value)) := by
  refine (Gives.anything _).bind fun result? _ => ?_
  cases result? with
  | none => exact .pure (.failed _)
  | some result =>
      dsimp only
      split
      · exact .pure (.failed _)
      · exact .pure (.leaf result)

theorem isPart_examineObject (runtime : RuntimeType) {value : Resolved Object Item}
    (present : value.isNull = false) :
    Gives (examineObject env info runtime value) (IsPart env.service (.ok value)) := by
  intro state
  rcases gives_object_or_failure env info runtime value state with hobject | ⟨failure, hfailed⟩
  · exact hobject ▸ .object _ present
  · exact hfailed ▸ .failed failure

theorem isPart_examineNamed (name : String) {value : Resolved Object Item}
    (present : value.isNull = false) :
    Gives (examineNamed env info name value) (IsPart env.service (.ok value)) := by
  have habstract :
      Gives (runtimeType env info name value >>= examineRuntime env info value)
        (IsPart env.service (.ok value)) := by
    refine (Gives.anything _).bind fun runtime _ => ?_
    cases runtime with
    | error failure => exact .pure (.failed _)
    | ok runtime => exact isPart_examineObject env info runtime present
  rw [examineNamed]
  cases env.schema.type? name with
  | none => exact .pure (.failed _)
  | some definition =>
      cases definition with
      | scalar scalar => exact isPart_examineLeaf env _ value
      | enum type => exact isPart_examineLeaf env _ value
      | inputObject type => exact .pure (.failed _)
      | object type => exact isPart_examineObject env info _ present
      | interface type => exact habstract
      | union type => exact habstract

theorem isPart_examine (type : TypeRef) (resolved : Except Failure (Resolved Object Item)) :
    Gives (examine env info type resolved) (IsPart env.service resolved) := by
  cases resolved with
  | error failure => exact .pure (.failed _)
  | ok value =>
      rw [examine]
      split
      · split
        · exact .pure (.failed _)
        · exact .pure .null
      · rename_i hpresent
        have present : value.isNull = false := Bool.eq_false_iff.mpr hpresent
        cases type with
        | named name nonNull => exact isPart_examineNamed env info name present
        | list item nonNull =>
            rw [examinePresent]
            cases hitems : items? env.service value with
            | none => exact .pure (.failed _)
            | some items => exact .pure (.list hitems)

end

end Completion

/-! ## Completion of JSON -/

namespace Completion

variable {env : Environment State Object Item} {execute : ObjectExecutor State Object Item}
  {info : ResolveInfo Object Item}

theorem mem_itemsOf_json {item : TypeRef} {values : List Json} {position : Nat}
    {pending : Pending State Object Item}
    (h : pending ∈
      itemsOf info item position (values.map fun value => pure (.ok (.json value)))) :
    pending.info = info ∧ pending.type = item ∧
      ∃ value ∈ values, pending.resolve = pure (.ok (.json value)) := by
  induction values generalizing position with
  | nil => cases h
  | cons value values ih =>
      rcases List.mem_cons.mp h with rfl | h
      · exact ⟨rfl, rfl, value, List.mem_cons_self, rfl⟩
      · obtain ⟨hinfo, htype, other, hmem, hresolve⟩ := ih h
        exact ⟨hinfo, htype, other, List.mem_cons_of_mem _ hmem, hresolve⟩

theorem ends_complete_failure (type : TypeRef) (path : Path) (failure : Failure) :
    (complete env execute info type path (.error failure)).Ends := by
  intro state
  rw [complete_apply]
  exact Exec.Ends.fail _ _

/-- Text that is at no type that has objects is completed to an end. -/
theorem ends_complete_text {type : TypeRef}
    (hleaf : ∀ name nonNull, type = .named name nonNull →
      ∀ object, ¬env.schema.Admits name object) (path : Path) (text : String) :
    (complete env execute info type path (.ok (.json (.string text)))).Ends := by
  intro state
  rw [complete_apply]
  have hfits := gives_examine env info type (.ok (.json (.string text))) state
  have hpart := isPart_examine env info type (.ok (.json (.string text))) state
  generalize ((examine env info type _).run state).1 = finding at hfits hpart ⊢
  cases hpart with
  | failed failure => exact Exec.Ends.fail _ _
  | null | leaf => rfl
  | list found => cases found
  | object object =>
      cases hfits with
      | object source admits => exact (hleaf _ _ rfl _ admits).elim

/-- JSON is completed to an end if what is in it is: an object is executed, and the items of a list
are completed at the item type. -/
theorem ends_complete_parts {type : TypeRef} {value : Json}
    (hexecute : value.isNull = false →
      ∀ path type, (execute path type (.json value) info.group.selections).Ends)
    (hitems : ∀ item nonNull values, type = .list item nonNull → value = .array values →
      ∀ part ∈ values, ∀ path, (complete env execute info item path (.ok (.json part))).Ends)
    (path : Path) : (complete env execute info type path (.ok (.json value))).Ends := by
  intro state
  rw [complete_apply]
  have hfits := gives_examine env info type (.ok (.json value)) state
  have hpart := isPart_examine env info type (.ok (.json value)) state
  generalize ((examine env info type _).run state).1 = finding at hfits hpart ⊢
  cases hpart with
  | failed failure => exact Exec.Ends.fail _ _
  | null | leaf => rfl
  | object object present =>
      exact Exec.Ends.bind (hexecute present path object) (fun _ => .pure _) _
  | @list _ item items found =>
      cases hfits
      cases value with
      | array values =>
          obtain rfl := Option.some.inj found
          rw [conclude_list]
          refine Exec.Ends.map (ends_fill fun pending hmem => ?_) _ _
          obtain ⟨hinfo, htype, part, hpart, hresolve⟩ := mem_itemsOf_json hmem
          rw [fillOne, hinfo, htype, hresolve, Exec.call_pure, pure_bind]
          exact (hitems _ _ values rfl rfl part hpart _).nullify _
      | _ => cases found

/-- JSON is completed to an end if the objects in it, which do not nest deeper, are executed to an
end: induction on the type. -/
theorem ends_complete_json (type : TypeRef) {value : Json}
    (hexecute : value.isNull = false → ∀ part : Json, part.depth ≤ value.depth →
      ∀ path type, (execute path type (.json part) info.group.selections).Ends)
    (path : Path) : (complete env execute info type path (.ok (.json value))).Ends := by
  induction type generalizing value path with
  | named name nonNull =>
      refine ends_complete_parts (fun present => hexecute present value (Nat.le_refl _)) ?_ path
      rintro _ _ _ ⟨⟩
  | list item nonNull ih =>
      refine ends_complete_parts (fun present => hexecute present value (Nat.le_refl _)) ?_ path
      rintro _ _ values ⟨⟩ rfl part hmem path
      have hdepth := Json.depth_le_depths hmem
      refine ih (fun _ inner hinner => hexecute rfl inner ?_) path
      rw [Json.depth]
      omega

end Completion

/-! ## Execution on JSON -/

/-- The members of an object are less deep than the object, and nothing else has members. -/
theorem Json.depth_property_lt {value : Json} {field : String}
    (present : (value.property field).isNull = false) :
    (value.property field).depth < value.depth := by
  cases value with
  | object members =>
      have hle := Json.depth_property_le field members
      rw [Json.depth]
      omega
  | _ => cases present

namespace Environment

variable {env : Environment State Object Item}

/-- What a field of JSON resolves to: an error, the name of the type, or a member. -/
theorem read_cases (path : Path) (type : ObjectType) (definition : FieldDefinition)
    (group : FieldGroup) (source : Json) :
    (∃ failure, env.read (env.infoOf path type definition group) source = .error failure) ∨
      (group.first.name = "__typename" ∧
        env.read (env.infoOf path type definition group) source =
          .ok (.json (.string type.name))) ∨
      env.read (env.infoOf path type definition group) source =
        .ok (.json (source.property group.first.name)) := by
  rw [read]
  split
  · exact .inl ⟨_, rfl⟩
  · simp only [ResolveInfo.fieldName, infoOf]
    unfold builtIn?
    split
    · rename_i hname
      exact .inr (.inl ⟨hname, rfl⟩)
    · exact .inl ⟨_, rfl⟩
    · exact .inl ⟨_, rfl⟩
    · exact .inr (.inr rfl)

/-- Fields of JSON are executed to an end if the objects in its members are. -/
theorem ends_of_members (unresolved : env.Unresolved) (typename : env.schema.TypenameIsLeaf)
    {depth : Nat} {value : Json}
    (hmembers : ∀ name, (value.property name).isNull = false →
      ∀ part : Json, part.depth ≤ (value.property name).depth → ∀ path type selections,
        (env.executeSelections depth path type (.json part) selections).Ends)
    (path : Path) (type : ObjectType) (selections : List Selection) :
    (env.executeSelections (depth + 1) path type (.json value) selections).Ends := by
  rw [executeSelections_succ]
  refine Exec.Ends.map (Completion.ends_fill fun pending hmem => ?_) _
  obtain ⟨⟨group, definition⟩, hfield, rfl⟩ := List.mem_map.mp hmem
  obtain ⟨-, hdefinition⟩ := mem_selectedFields hfield
  refine Exec.Ends.nullify ?_ _
  dsimp only
  rw [unresolved.resolution_json, Exec.call_pure, pure_bind]
  rcases env.read_cases path type definition group value with
    ⟨failure, hread⟩ | ⟨hname, hread⟩ | hread
  · rw [hread]
    exact Completion.ends_complete_failure _ _ _
  · rw [hread]
    rw [hname] at hdefinition
    exact Completion.ends_complete_text (fun name nonNull => typename _ _ _ _ hdefinition) _ _
  · rw [hread]
    exact Completion.ends_complete_json _
      (fun present part hpart path type => hmembers _ present part hpart path type _) _

/-- An execution on JSON ends within the depth of the data: induction on the depth. -/
theorem ends_of_json (unresolved : env.Unresolved) (typename : env.schema.TypenameIsLeaf)
    {depth : Nat} {value : Json} (hdepth : value.depth ≤ depth) (path : Path) (type : ObjectType)
    (selections : List Selection) :
    (env.executeSelections (depth + 1) path type (.json value) selections).Ends := by
  induction depth generalizing value path type selections with
  | zero =>
      refine ends_of_members unresolved typename (fun name present => ?_) path type selections
      have hless := Json.depth_property_lt present
      omega
  | succ depth ih =>
      refine ends_of_members unresolved typename (fun name present part hpart => ?_) path type
        selections
      have hless := Json.depth_property_lt present
      exact ih (by omega)

end Environment

/-! ## Requests -/

namespace Request

variable {executable : ExecutableSchema State Object Item} {service : Service State Object Item}
  {request : Request State Object Item}

/-- An answer within some depth is the answer within every depth that is great enough. -/
theorem executeWithin_settles {depth : Nat} {state : State}
    {answer : Except RequestError Response × State}
    (h : request.executeWithin depth executable service state = some answer) :
    ∃ bound, ∀ depth' ≥ bound,
      request.executeWithin depth' executable service state = some answer := by
  rw [executeWithin] at h
  cases hprepare : request.prepare executable service with
  | error error =>
      simp only [hprepare] at h
      exact ⟨0, fun depth' _ => by rw [executeWithin, hprepare]; exact h⟩
  | ok prepared =>
      obtain ⟨env, type⟩ := prepared
      simp only [hprepare] at h
      obtain ⟨step, hstep, hanswer⟩ := Option.map_eq_some_iff.mp h
      obtain ⟨bound, hbound⟩ := Environment.executeSelections_settles hstep
      refine ⟨bound, fun depth' hdepth => ?_⟩
      rw [executeWithin, hprepare]
      simp only [Environment.run, hbound depth' hdepth, Option.map_some, hanswer]

/-- Answers within different depths are the same. -/
theorem executeWithin_unique {depth depth' : Nat} {state : State}
    {answer answer' : Except RequestError Response × State}
    (h : request.executeWithin depth executable service state = some answer)
    (h' : request.executeWithin depth' executable service state = some answer') :
    answer = answer' := by
  obtain ⟨bound, hbound⟩ := executeWithin_settles h
  obtain ⟨bound', hbound'⟩ := executeWithin_settles h'
  have hfirst := hbound (max bound bound') (Nat.le_max_left _ _)
  have hsecond := hbound' (max bound bound') (Nat.le_max_right _ _)
  exact Option.some.inj (hfirst.symm.trans hsecond)

/-- A request is answered within a depth in which its run comes to an end. -/
theorem isSome_executeWithin {depth : Nat}
    (hends : ∀ env type, request.prepare executable service = .ok (env, type) →
      (env.run depth type).Ends) (state : State) :
    (request.executeWithin depth executable service state).isSome := by
  rw [executeWithin]
  cases hprepare : request.prepare executable service with
  | error error => rfl
  | ok prepared =>
      obtain ⟨env, type⟩ := prepared
      simp only [Option.isSome_map]
      exact hends env type hprepare state

/-- A request for JSON, without a resolver, is answered within the depth of the data. -/
theorem isSome_executeWithin_of_json {value : Json} (root : request.root = .json value)
    (resolver : request.fieldResolver? = none)
    (unresolved : ∀ type field, executable.resolver? type field = none)
    (typename : executable.schema.TypenameIsLeaf) {depth : Nat} (hdepth : value.depth < depth)
    (state : State) : (request.executeWithin depth executable service state).isSome := by
  refine isSome_executeWithin (fun env type prepared => ?_) state
  obtain ⟨operation, coerced, -, -, -, rfl⟩ := prepare_eq_ok_iff.mp prepared
  obtain ⟨depth, rfl⟩ := Nat.exists_eq_add_of_lt hdepth
  rw [Environment.run, root]
  refine Environment.ends_of_json ?_ ?_ (by omega) [] type _
  · exact ⟨unresolved, by rw [resolver]; rfl⟩
  · exact typename

/-- Execution comes to an end if no fragment of the document reaches itself, whatever hooks return;
and if it reads JSON without a resolver, whatever fragments do, with selection sets that nest no
deeper than the data. The bound on their depth is never met, so that any greater one would give the
same answer. That `__typename` is a leaf holds of every schema that has passed validation
(`Schema.NamesValid.typenameIsLeaf`); the document need not have. -/
theorem execution_ends (request : Request State Object Item)
    (executable : ExecutableSchema State Object Item) (service : Service State Object Item)
    (state : State) :
    (request.document.fragments.Acyclic →
      ∃ answer, request.execute executable service state = some answer ∧
        ∃ bound, ∀ depth ≥ bound,
          request.executeWithin depth executable service state = some answer) ∧
    ∀ value, request.root = .json value → request.fieldResolver? = none →
      (∀ type field, executable.resolver? type field = none) →
      executable.schema.TypenameIsLeaf →
        ∃ answer, request.execute executable service state = some answer ∧
          ∀ depth > value.depth,
            request.executeWithin depth executable service state = some answer := by
  refine ⟨fun acyclic => ?_, fun value root resolver unresolved typename => ?_⟩
  · have hends : (request.execute executable service state).isSome := by
      refine isSome_executeWithin (fun env type prepared => ?_) state
      refine ends_of_acyclic prepared ?_
      obtain ⟨operation, coerced, -, -, -, rfl⟩ := prepare_eq_ok_iff.mp prepared
      exact acyclic
    obtain ⟨answer, hanswer⟩ := Option.isSome_iff_exists.mp hends
    exact ⟨answer, hanswer, executeWithin_settles hanswer⟩
  · have hends {depth : Nat} (hdepth : value.depth < depth) :
        (request.executeWithin depth executable service state).isSome :=
      isSome_executeWithin_of_json root resolver unresolved typename hdepth state
    have hbound : value.depth < request.depthBound := by
      have hroot := request.depth_lt_depthBound
      rwa [root, Resolved.depth] at hroot
    obtain ⟨answer, hanswer⟩ := Option.isSome_iff_exists.mp (hends hbound)
    refine ⟨answer, hanswer, fun depth hdepth => ?_⟩
    obtain ⟨other, hother⟩ := Option.isSome_iff_exists.mp (hends hdepth)
    rw [hother, executeWithin_unique hother hanswer]

end Request

/-! ## A fragment that reaches itself -/

namespace Sample

def selfHead : FieldHead := { name := "self", location := ⟨1, 32⟩ }

def twoSelves : Json := .object [("self", .object [])]

/-- The request for `{ ...F } fragment F on Query { self { ...F } }`. -/
def cyclic : Request Unit Empty Empty where
  document :=
    [.operation { operation with selections := [.spread "F" []] },
      .fragment
        { name := "F", condition := "Query", selections := [.field selfHead [.spread "F" []]] }]
  root := .json twoSelves

def selfType : ObjectType :=
  { name := "Query", fields := ⟨[{ name := "self", type := .named "Query" false }], by decide⟩ }

/-- `type Query { self: Query }` -/
def selves : Schema where
  query? := some "Query"
  types := ⟨[.scalar "String", .object selfType], by decide⟩

theorem namesValid_selves : selves.NamesValid where
  fields definition hmem name field hown := by
    have hcases : definition = .scalar "String" ∨ definition = .object selfType := by
      simpa [selves] using hmem
    rcases hcases with rfl | rfl
    · cases hown
    · have hfield : field ∈ selfType.fields.entries := Catalog.mem_of_find? hown
      have hname : Named.name field = name := Catalog.name_of_find? hown
      rw [← hname, List.mem_singleton.mp hfield]
      decide
  string := rfl

/-- A request without fragments comes to an end, and so does one whose fragment reaches itself as
often as the data has a member for it. -/
theorem requests_end :
    (∃ answer, request.execute (executable nameless) service () = some answer ∧
      ∃ bound, ∀ depth ≥ bound,
        request.executeWithin depth (executable nameless) service () = some answer) ∧
    ∃ answer, cyclic.execute (.plain selves) service () = some answer ∧
      ∀ depth > twoSelves.depth,
        cyclic.executeWithin depth (.plain selves) service () = some answer :=
  ⟨(request.execution_ends (executable nameless) service ()).1 acyclic_empty,
    (cyclic.execution_ends (.plain selves) service ()).2 twoSelves rfl rfl (fun _ _ => rfl)
      namesValid_selves.typenameIsLeaf⟩

end Sample

end GraphQL
