import GraphQL.Proofs.Document.Aliases
import GraphQL.Proofs.Execution.Plain
import GraphQL.Proofs.Execution.Validity
import GraphQL.Proofs.Response.Data

/-! # Data that is read once more

Without hooks and aliases, the data of a response may take the place of the data that it was read
from: the same operation gives it again. The first data need not fit the schema. Where it cannot be
completed, or the arguments of a field cannot be coerced, the response has a null, and null stays
null. -/

namespace GraphQL

variable {State Object Item : Type}

/-! ## Fields without aliases -/

namespace Environment

variable {env : Environment State Object Item}

variable (env) in
theorem unaliased_selectedFields (fragments : env.request.fragments.Unaliased) {type : ObjectType}
    {selections : List Selection} (unaliased : ∀ selection ∈ selections, selection.Unaliased) :
    ∀ field ∈ env.selectedFields type selections, field.1.first.name = field.1.key ∧
      ∀ selection ∈ field.1.selections, selection.Unaliased := by
  intro field hmem
  obtain ⟨group, hgroup, hdefinition⟩ := List.mem_filterMap.mp hmem
  obtain ⟨definition, -, rfl⟩ := Option.map_eq_some_iff.mp hdefinition
  exact Scope.unaliased_collectFields fragments unaliased group hgroup

variable (env) in
theorem unaliased_fieldsOf (fragments : env.request.fragments.Unaliased) {path : Path}
    {type : ObjectType} {source : Resolved Object Item} {selections : List Selection}
    (unaliased : ∀ selection ∈ selections, selection.Unaliased) :
    ∀ pending ∈ env.fieldsOf path type source (env.selectedFields type selections),
      ∀ selection ∈ pending.info.group.selections, selection.Unaliased := by
  intro pending hmem
  obtain ⟨field, hfield, rfl⟩ := List.mem_map.mp hmem
  exact (env.unaliased_selectedFields fragments unaliased field hfield).2

end Environment

theorem Completion.unaliased_itemsOf {info : ResolveInfo Object Item}
    (unaliased : ∀ selection ∈ info.group.selections, selection.Unaliased) {item : TypeRef}
    {position : Nat} {items : List (StateM State (ResolverResult Object Item))} :
    ∀ pending ∈ itemsOf info item position items,
      ∀ selection ∈ pending.info.group.selections, selection.Unaliased := by
  intro pending hmem
  rw [(mem_itemsOf hmem).1]
  exact unaliased

/-! ## Another root -/

def ResolveInfo.withRoot (info : ResolveInfo Object Item) (root : Resolved Object Item) :
    ResolveInfo Object Item :=
  { info with request := { info.request with root } }

namespace Environment

variable {env : Environment State Object Item}

/-- The environment of the same request for another root. -/
def withRoot (env : Environment State Object Item) (root : Resolved Object Item) :
    Environment State Object Item :=
  { env with request := { env.request with root } }

theorem Plain.withRoot (plain : env.Plain) (root : Resolved Object Item) :
    (env.withRoot root).Plain :=
  ⟨plain.executable, plain.fieldResolver⟩

theorem read_withRoot (info : ResolveInfo Object Item) (root : Resolved Object Item)
    (source : Json) :
    (env.withRoot root).read (info.withRoot root) source = env.read info source := rfl

end Environment

/-! ## Reading once more -/

/-- What is read at a place once more: the same as before, or what stands there in the end. -/
inductive Slot.ReadAgain (slot : Slot) : Except Failure (Resolved Object Item) →
    Except Failure (Resolved Object Item) → Prop
  | failed (failure) : ReadAgain slot (.error failure) (.error failure)
  | data {value again} (h : again = value ∨ slot.value? = some again) :
      ReadAgain slot (.ok (.json value)) (.ok (.json again))

/-- Places below are read once more, up to the first that sends a null upwards. -/
inductive ReadsAgain (root : Resolved Object Item) : List (Pending State Object Item) →
    List (PathSegment × Slot) → List (Pending State Object Item) → Prop
  | nil : ReadsAgain root [] [] []
  | cons {segment type info resolved resolved' place rest children rest'}
      (head : Slot.ReadAgain (type, place) resolved resolved')
      (tail : (Slot.value? (type, place)).isSome → ReadsAgain root rest children rest') :
      ReadsAgain root (⟨segment, type, info, pure resolved⟩ :: rest)
        ((segment, type, place) :: children)
        (⟨segment, type, info.withRoot root, pure resolved'⟩ :: rest')

/-- Items are read once more from the same list, or from the list of what they settled on. -/
theorem ReadsAgain.items {env : Environment State Object Item} {info : ResolveInfo Object Item}
    {item : TypeRef} {path : Path} {raws agains : List Json} {state next : State}
    {children : List (PathSegment × Slot)} {position : Nat} (root : Resolved Object Item)
    (h : ChildrenDerivation env path (Completion.itemsOf info item position
      (raws.map fun value => pure (.ok (.json value)))) state children next)
    (read : agains = raws ∨
      ∃ values, SettleOn children values ∧ values.map Prod.snd = agains) :
    ReadsAgain root
      (Completion.itemsOf info item position (raws.map fun value => pure (.ok (.json value))) :
        List (Pending State Object Item))
      children
      (Completion.itemsOf (info.withRoot root) item position
        (agains.map fun value => pure (.ok (.json value)))) := by
  induction raws generalizing agains state children position with
  | nil =>
      cases h
      rcases read with rfl | ⟨_, ⟨⟩, rfl⟩
      · exact .nil
      · exact .nil
  | cons raw rest ih =>
      cases h with
      | stop _ _ nulled =>
          rcases read with rfl | ⟨_, hsettle, -⟩
          · exact .cons (.data (.inl rfl)) fun settled => by simp [nulled] at settled
          · cases hsettle with
            | cons head => cases nulled.symm.trans head
      | cons _ _ settled tail =>
          rcases read with rfl | ⟨_, hsettle, rfl⟩
          · exact .cons (.data (.inl rfl)) fun _ => ih tail (.inl rfl)
          · cases hsettle with
            | cons head hrest =>
                exact .cons (.data (.inr head)) fun _ => ih tail (.inr ⟨_, hrest, rfl⟩)

/-- The built-in answers are JSON. -/
theorem Environment.readAgain_builtIn? {type : ObjectType} {name : String}
    {answer : Except Failure (Resolved Object Item)} (h : builtIn? type name = some answer)
    (slot : Slot) : slot.ReadAgain answer answer := by
  unfold builtIn? at h
  split at h
  · obtain rfl := Option.some.inj h
    exact .data (.inl rfl)
  · obtain rfl := Option.some.inj h
    exact .failed _
  · obtain rfl := Option.some.inj h
    exact .failed _
  · cases h

/-- A field is read once more from an object that has its property still, or what the field settled
on in its place. -/
theorem Environment.readAgain_read (env : Environment State Object Item)
    {info : ResolveInfo Object Item} {source again : Json} {slot : Slot}
    (h : again.property info.fieldName = source.property info.fieldName ∨
      slot.value? = some (again.property info.fieldName)) :
    slot.ReadAgain (env.read info source) (env.read info again) := by
  rw [read, read]
  cases env.schema.coerceArguments info.definition.arguments info.group.first.arguments
      env.request.variableValues with
  | error error => exact .failed _
  | ok arguments =>
      cases hbuiltIn : (builtIn? info.parent info.fieldName :
          Option (Except Failure (Resolved Object Item))) with
      | some answer => exact readAgain_builtIn? hbuiltIn slot
      | none => exact .data h

/-- Fields are read once more from an object that has the property of each still, or what it settled
on. -/
theorem ReadsAgain.fields {env : Environment State Object Item} (plain : env.Plain)
    {path : Path} {type : ObjectType} {source again : Json}
    {fields : List (FieldGroup × FieldDefinition)} {state next : State}
    {children : List (PathSegment × Slot)} (root : Resolved Object Item)
    (h : ChildrenDerivation env path (env.fieldsOf path type (.json source) fields) state children
      next)
    (property : ∀ field ∈ fields, ∀ slot, (.key field.1.key, slot) ∈ children →
      again.property field.1.first.name = source.property field.1.first.name ∨
        slot.value? = some (again.property field.1.first.name)) :
    ReadsAgain root (env.fieldsOf path type (.json source) fields) children
      ((env.withRoot root).fieldsOf path type (.json again) fields) := by
  induction fields generalizing state children with
  | nil =>
      cases h
      exact .nil
  | cons field rest ih =>
      obtain ⟨group, definition⟩ := field
      obtain ⟨hhead, hrest⟩ := List.forall_mem_cons.mp property
      have hresolve := plain.resolution_json (env.infoOf path type definition group) source
      have hresolve' := (plain.withRoot root).resolution_json
        ((env.infoOf path type definition group).withRoot root) again
      rw [Environment.read_withRoot] at hresolve'
      simp only [Environment.fieldsOf, List.map_cons] at h ih ⊢
      change ReadsAgain root (_ :: _) _
        (⟨.key group.key, definition.type, (env.infoOf path type definition group).withRoot root,
          (env.withRoot root).resolution
            ((env.infoOf path type definition group).withRoot root) (.json again)⟩ :: _)
      rw [hresolve, hresolve']
      cases h with
      | stop _ _ nulled =>
          refine .cons (env.readAgain_read (hhead _ List.mem_cons_self)) fun settled => ?_
          simp [nulled] at settled
      | cons _ _ settled tail =>
          refine .cons (env.readAgain_read (hhead _ List.mem_cons_self)) fun _ => ih tail ?_
          exact fun field hmem slot hslot => hrest field hmem slot (List.mem_cons_of_mem _ hslot)

/-! ## What is found again -/

namespace Environment.Plain

variable {env : Environment State Object Item} {info : ResolveInfo Object Item} {type : TypeRef}
  {value : Json} {state next : State}

theorem run_examine_json (plain : env.Plain) (info : ResolveInfo Object Item) (type : TypeRef)
    (value : Json) (state : State) :
    (Completion.examine env info type (.ok (.json value))).run state =
      (env.schema.find info.parent.name info.fieldName type value, state) := by
  rw [plain.examine_json]
  rfl

theorem found_of_examine (plain : env.Plain) {finding : Finding State Object Item}
    (found : (Completion.examine env info type (.ok (.json value))).run state = (finding, next)) :
    env.schema.Found type value finding := by
  rw [plain.run_examine_json] at found
  cases found
  exact Schema.found_find type value

/-- The root has no part in what data is found to be. -/
theorem examine_withRoot (plain : env.Plain) {finding : Finding State Object Item}
    (found : (Completion.examine env info type (.ok (.json value))).run state = (finding, next))
    (root : Resolved Object Item) (state' : State) :
    (Completion.examine (env.withRoot root) (info.withRoot root) type
      (.ok (.json value))).run state' = (finding, state') := by
  rw [plain.run_examine_json] at found
  rw [(plain.withRoot root).run_examine_json]
  cases found
  rfl

/-- A leaf of the response is found to be that leaf. -/
theorem examine_leaf (plain : env.Plain) {result : Json}
    (found : (Completion.examine env info type (.ok (.json value))).run state =
      (.leaf result, next))
    (root : Resolved Object Item) (state' : State) :
    (Completion.examine (env.withRoot root) (info.withRoot root) type
      (.ok (.json result))).run state' = (.leaf result, state') := by
  rw [(plain.withRoot root).run_examine_json]
  cases plain.found_of_examine found with
  | leaf defined present serialized =>
      have hpresent := TypeDefinition.isNull_of_serialize? serialized present
      have hserialized := TypeDefinition.serialize?_of_serialize? serialized
      exact congrArg (·, state') (Schema.find_leaf defined hpresent hserialized)

/-- Where data is found to be a list, every array is. -/
theorem examine_list (plain : env.Plain) {item : TypeRef}
    {items : List (StateM State (ResolverResult Object Item))}
    (found : (Completion.examine env info type (.ok (.json value))).run state =
      (.list item items, next)) :
    ∃ raws, value = .array raws ∧ items = raws.map (fun value => pure (.ok (.json value))) ∧
      ∀ root values state', (Completion.examine (env.withRoot root) (info.withRoot root) type
        (.ok (.json (.array values)))).run state' =
          (.list item (values.map fun value => pure (.ok (.json value))), state') := by
  cases plain.found_of_examine found with
  | list raws =>
      refine ⟨raws, rfl, rfl, fun root values state' => ?_⟩
      rw [(plain.withRoot root).run_examine_json, Schema.find_list]

/-- Where data is found to be an object of a type, everything but null is. -/
theorem examine_object (plain : env.Plain) {object : ObjectType} {source : Resolved Object Item}
    (found : (Completion.examine env info type (.ok (.json value))).run state =
      (.object object source, next)) :
    source = .json value ∧ value.isNull = false ∧
      ∀ root again state', again.isNull = false →
        (Completion.examine (env.withRoot root) (info.withRoot root) type
          (.ok (.json again))).run state' = (.object object (.json again), state') := by
  cases plain.found_of_examine found with
  | object defined present =>
      refine ⟨rfl, present, fun root again state' hagain => ?_⟩
      rw [(plain.withRoot root).run_examine_json]
      exact congrArg (·, state') (Schema.find_object defined hagain)

end Environment.Plain

/-- A key of an object is the name of what its field settled on. -/
theorem SettleOn.property_eq {children : List (PathSegment × Slot)}
    {values : List (PathSegment × Json)} (h : SettleOn children values)
    (distinct : (Entries.keys children).Nodup) {name : String} {slot : Slot}
    (hmem : (.key name, slot) ∈ children) :
    slot.value? = some (Json.property name (.object (membersOf values))) := by
  obtain ⟨value, hvalue⟩ := h.exists_value hmem
  have hget := Place.get?_key values name
  rw [h.get?_eq, Entries.get?_of_mem distinct hmem, Option.bind_some, hvalue] at hget
  simp [Json.property, hget, hvalue]

/-- Without aliases, fields are read once more from the same data, or from the object of what they
settled on. -/
theorem ReadsAgain.object {env : Environment State Object Item} (plain : env.Plain)
    (fragments : env.request.fragments.Unaliased) {path : Path} {type : ObjectType}
    {source again : Json} {selections : List Selection}
    (unaliased : ∀ selection ∈ selections, selection.Unaliased) {state next : State}
    {children : List (PathSegment × Slot)} (root : Resolved Object Item)
    (h : ChildrenDerivation env path
      (env.fieldsOf path type (.json source) (env.selectedFields type selections)) state children
      next)
    (read : again = source ∨
      ∃ values, SettleOn children values ∧ .object (membersOf values) = again) :
    ReadsAgain root
      (env.fieldsOf path type (.json source) (env.selectedFields type selections)) children
      ((env.withRoot root).fieldsOf path type (.json again)
        ((env.withRoot root).selectedFields type selections)) := by
  refine .fields plain root h fun field hfield slot hslot => ?_
  rcases read with rfl | ⟨values, hsettle, rfl⟩
  · exact .inl rfl
  · obtain ⟨hname, -⟩ := env.unaliased_selectedFields fragments unaliased field hfield
    rw [hname]
    exact .inr (hsettle.property_eq h.keys_fields.2 hslot)

/-! ## What is found once more

A place either goes the same way as before, or it has a null and finds that null. -/

/-- The null that stands at a place is read there. -/
def Slot.NullAgain (slot : Slot) (resolved : Except Failure (Resolved Object Item)) : Prop :=
  resolved = .ok (.json .null) ∧ slot.1.nonNull = false ∧ slot.value? = some .null

/-- Null stays null wherever it may stand. -/
theorem Environment.Plain.of_nullAgain {env : Environment State Object Item} (plain : env.Plain)
    (info : ResolveInfo Object Item) (path : Path) {type : TypeRef} {place : Place}
    {resolved : Except Failure (Resolved Object Item)}
    (h : Slot.NullAgain (type, place) resolved) (state : State) :
    ∃ place', PlaceDerivation env info path type resolved state place' state ∧
      Slot.value? (type, place') = Slot.value? (type, place) := by
  obtain ⟨rfl, nullable, hvalue⟩ := h
  refine ⟨.null, .null ?_, hvalue.symm⟩
  rw [plain.run_examine_json, Schema.find_null nullable]

namespace Slot.ReadAgain

variable {env : Environment State Object Item} {info : ResolveInfo Object Item} {type : TypeRef}
  {resolved resolved' : Except Failure (Resolved Object Item)} {path : Path}
  {state middle next : State} {children : List (PathSegment × Slot)}

/-- At the place of a list, the items are the same as before or what they settled on. -/
theorem list (plain : env.Plain) {item : TypeRef}
    {items : List (StateM State (ResolverResult Object Item))}
    (found : (Completion.examine env info type resolved).run state = (.list item items, middle))
    (below : ChildrenDerivation env path (Completion.itemsOf info item 0 items) middle children
      next)
    (root : Resolved Object Item)
    (read : Slot.ReadAgain (type, .list children) resolved resolved') :
    Slot.NullAgain (type, .list children) resolved' ∨
      ∃ items', (∀ state', (Completion.examine (env.withRoot root) (info.withRoot root) type
          resolved').run state' = (.list item items', state')) ∧
        ReadsAgain root (Completion.itemsOf info item 0 items) children
          (Completion.itemsOf (info.withRoot root) item 0 items') := by
  cases read with
  | failed failure => cases found
  | data h =>
      obtain ⟨raws, rfl, rfl, hlist⟩ := plain.examine_list found
      rcases h with rfl | h
      · exact .inr ⟨_, hlist root raws, .items root below (.inl rfl)⟩
      · rcases Slot.value?_eq_some.mp h with hdata | ⟨-, rfl, nullable⟩
        · obtain ⟨values, hvalues, rfl⟩ := Option.map_eq_some_iff.mp hdata
          have hsettle := Place.settleOn hvalues
          exact .inr ⟨_, hlist root _, .items root below (.inr ⟨values, hsettle, rfl⟩)⟩
        · exact .inl ⟨rfl, nullable, h⟩

/-- At the place of an object, the source is the same as before or what the object settled on. -/
theorem object (plain : env.Plain) (fragments : env.request.fragments.Unaliased)
    (unaliased : ∀ selection ∈ info.group.selections, selection.Unaliased) {object : ObjectType}
    {source : Resolved Object Item}
    (found : (Completion.examine env info type resolved).run state =
      (.object object source, middle))
    (below : ChildrenDerivation env path
      (env.fieldsOf path object source (env.selectedFields object info.group.selections)) middle
      children next)
    (root : Resolved Object Item)
    (read : Slot.ReadAgain (type, .object children) resolved resolved') :
    Slot.NullAgain (type, .object children) resolved' ∨
      ∃ source', (∀ state', (Completion.examine (env.withRoot root) (info.withRoot root) type
          resolved').run state' = (.object object source', state')) ∧
        ReadsAgain root
          (env.fieldsOf path object source (env.selectedFields object info.group.selections))
          children
          ((env.withRoot root).fieldsOf path object source'
            ((env.withRoot root).selectedFields object info.group.selections)) := by
  cases read with
  | failed failure => cases found
  | data h =>
      obtain ⟨rfl, present, hobject⟩ := plain.examine_object found
      rcases h with rfl | h
      · exact .inr ⟨_, fun state' => hobject root _ state' present,
          .object plain fragments unaliased root below (.inl rfl)⟩
      · rcases Slot.value?_eq_some.mp h with hdata | ⟨-, rfl, nullable⟩
        · obtain ⟨values, hvalues, rfl⟩ := Option.map_eq_some_iff.mp hdata
          have hsettle := Place.settleOn hvalues
          exact .inr ⟨_, fun state' => hobject root _ state' rfl,
            .object plain fragments unaliased root below (.inr ⟨values, hsettle, rfl⟩)⟩
        · exact .inl ⟨rfl, nullable, h⟩

end Slot.ReadAgain

/-! ## Records of what is read once more

Induction on the record of the first run: what stands below a place is what is read there the next
time, so that each place is reached with the value that it settled on, or with the same data. -/

mutual

/-- A place settles on the same value if what is read there is the same as before, or that value
itself. -/
theorem PlaceDerivation.again {env : Environment State Object Item} (plain : env.Plain)
    (fragments : env.request.fragments.Unaliased) {info : ResolveInfo Object Item} {path : Path}
    {type : TypeRef} {resolved resolved' : Except Failure (Resolved Object Item)}
    {state next : State} {place : Place}
    (unaliased : ∀ selection ∈ info.group.selections, selection.Unaliased)
    (root : Resolved Object Item) (state' : State)
    (read : Slot.ReadAgain (type, place) resolved resolved') :
    PlaceDerivation env info path type resolved state place next →
      ∃ place', PlaceDerivation (env.withRoot root) (info.withRoot root) path type resolved' state'
          place' state' ∧
        Slot.value? (type, place') = Slot.value? (type, place)
  | .failed found => by
      cases read with
      | failed failure =>
          cases found
          exact ⟨_, .failed rfl, rfl⟩
      | data h =>
          rcases h with rfl | h
          · exact ⟨_, .failed (plain.examine_withRoot found root state'), rfl⟩
          · rcases Slot.value?_eq_some.mp h with hdata | ⟨-, rfl, nullable⟩
            · cases hdata
            · exact (plain.withRoot root).of_nullAgain _ path ⟨rfl, nullable, h⟩ state'
  | .null found => by
      cases read with
      | failed failure => cases found
      | data h =>
          rcases h with rfl | h
          · exact ⟨_, .null (plain.examine_withRoot found root state'), rfl⟩
          · cases plain.found_of_examine found with
            | null nullable =>
                obtain rfl := Option.some.inj h
                exact (plain.withRoot root).of_nullAgain _ path ⟨rfl, nullable, h⟩ state'
  | .leaf found => by
      cases read with
      | failed failure => cases found
      | data h =>
          rcases h with rfl | h
          · exact ⟨_, .leaf (plain.examine_withRoot found root state'), rfl⟩
          · cases h
            exact ⟨_, .leaf (plain.examine_leaf found root state'), rfl⟩
  | .list found below => by
      rcases read.list plain found below root with hnull | ⟨items', hfound, hread⟩
      · exact (plain.withRoot root).of_nullAgain _ path hnull state'
      · obtain ⟨children', hbelow, hvalues⟩ :=
          below.again plain fragments (Completion.unaliased_itemsOf unaliased) root state' hread
        exact ⟨_, .list (hfound state') hbelow, by simp [Slot.value?, Place.data?, hvalues]⟩
  | .object found below => by
      rcases read.object plain fragments unaliased found below root with
        hnull | ⟨source', hfound, hread⟩
      · exact (plain.withRoot root).of_nullAgain _ path hnull state'
      · obtain ⟨children', hbelow, hvalues⟩ :=
          below.again plain fragments (env.unaliased_fieldsOf fragments unaliased) root state' hread
        exact ⟨_, .object (hfound state') hbelow, by simp [Slot.value?, Place.data?, hvalues]⟩

theorem ChildrenDerivation.again {env : Environment State Object Item} (plain : env.Plain)
    (fragments : env.request.fragments.Unaliased) {path : Path}
    {pendings pendings' : List (Pending State Object Item)} {state next : State}
    {children : List (PathSegment × Slot)}
    (unaliased : ∀ pending ∈ pendings, ∀ selection ∈ pending.info.group.selections,
      selection.Unaliased)
    (root : Resolved Object Item) (state' : State)
    (read : ReadsAgain root pendings children pendings') :
    ChildrenDerivation env path pendings state children next →
      ∃ children', ChildrenDerivation (env.withRoot root) path pendings' state' children' state' ∧
        Place.values? children' = Place.values? children
  | .nil _ _ => by
      cases read
      exact ⟨[], .nil path state', rfl⟩
  | .stop call head nulled => by
      cases read with
      | cons hread _ =>
          cases call
          obtain ⟨hhead, -⟩ := List.forall_mem_cons.mp unaliased
          obtain ⟨place', hplace, hvalue⟩ := head.again plain fragments hhead root state' hread
          rw [nulled] at hvalue
          exact ⟨_, .stop rfl hplace hvalue, by simp [Place.values?_cons, hvalue, nulled]⟩
  | .cons call head settled tail => by
      cases read with
      | cons hread hrest =>
          cases call
          obtain ⟨hhead, htail⟩ := List.forall_mem_cons.mp unaliased
          obtain ⟨place', hplace, hvalue⟩ := head.again plain fragments hhead root state' hread
          obtain ⟨children', hbelow, hvalues⟩ :=
            tail.again plain fragments htail root state' (hrest (Option.isSome_of_eq_some settled))
          rw [settled] at hvalue
          exact ⟨_, .cons rfl hplace hvalue hbelow,
            by simp [Place.values?_cons, hvalue, settled, hvalues]⟩

end

/-! ## Answers to requests -/

theorem Place.toData_eq_object {children : List (PathSegment × Slot)} {members : Members} :
    (Place.object children).toData = .object members ↔
      ∃ values, values? children = some values ∧ membersOf values = members := by
  rw [toData]
  cases values? children <;> simp

/-- A run from the data of a response has the same data. -/
theorem RunDerivation.again {env : Environment State Object Item} (plain : env.Plain)
    (fragments : env.request.fragments.Unaliased) {type : ObjectType} {state next : State}
    {record : Slot}
    (unaliased : ∀ selection ∈ env.request.operation.selections, selection.Unaliased)
    {value : Json} (root : env.request.root = .json value)
    (h : RunDerivation env type state record next) {members : Members}
    (data : record.2.toData = .object members) (state' : State) :
    ∃ record', RunDerivation (env.withRoot (.json (.object members))) type state' record' state' ∧
      record'.2.toData = .object members := by
  obtain ⟨below⟩ := h
  obtain ⟨values, hvalues, rfl⟩ := Place.toData_eq_object.mp data
  rw [root] at below
  have hread := ReadsAgain.object plain fragments unaliased (.json (.object (membersOf values)))
    below (.inr ⟨values, Place.settleOn hvalues, rfl⟩)
  obtain ⟨children', hbelow, hvalues'⟩ :=
    below.again plain fragments (env.unaliased_fieldsOf fragments unaliased) _ state' hread
  exact ⟨_, .root hbelow, Place.toData_eq_object.mpr ⟨values, hvalues'.trans hvalues, rfl⟩⟩

/-- The data of a response, put in the place of the data that it was read from, is answered with
itself: its members, in their order. -/
theorem Request.data_idempotent {schema : Schema} {service : Service State Object Item}
    {request : Request State Object Item} (resolver : request.fieldResolver? = none)
    (unaliased : request.document.Unaliased) {value : Json} (root : request.root = .json value)
    {depth : Nat} {state next : State} {response : Response} {members : Members}
    (answered : request.executeWithin depth (.plain schema) service state =
      some (.ok response, next))
    (data : response.data = .object members) (state' : State) :
    ∃ bound, ∀ depth' ≥ bound, ∃ again,
      { request with root := .json (.object members) }.executeWithin depth' (.plain schema) service
          state' = some (.ok again, state') ∧
        again.data = .object members := by
  obtain ⟨env, type, record, hprepare, hrecord, rfl⟩ := executeWithin_derivation answered
  have hplain := plain_of_prepare resolver hprepare
  obtain ⟨operation, coerced, hselect, hcoerce, hroot, henv⟩ := prepare_eq_ok_iff.mp hprepare
  have hfragments : env.request.fragments.Unaliased := by
    rw [henv]
    exact unaliased.fragments
  have hselections : ∀ selection ∈ env.request.operation.selections, selection.Unaliased := by
    rw [henv]
    exact unaliased (.operation operation) (Document.mem_of_selectOperation hselect)
  have hsource : env.request.root = .json value := by rw [henv, ← root]
  have hprepare' : { request with root := .json (.object members) }.prepare (.plain schema)
      service = .ok (env.withRoot (.json (.object members)), type) :=
    prepare_eq_ok_iff.mpr ⟨operation, coerced, hselect, hcoerce, hroot, by rw [henv]; rfl⟩
  obtain ⟨record', hrecord', hdata⟩ :=
    hrecord.again hplain hfragments hselections hsource data state'
  obtain ⟨bound, hbound⟩ := executeWithin_of_derivation hprepare' hrecord'
  exact ⟨bound, fun depth' hdepth => ⟨_, hbound depth' hdepth, hdata⟩⟩

namespace Sample

/-- A user whose name is a Boolean, along with what nobody asks for. -/
def flagged : Json :=
  .object [("id", .integer 1), ("user", .object [("name", .bool true), ("age", .integer 36)])]

def flaggedRequest : Request Unit Empty Empty := { request with root := .json flagged }

def flaggedEnvironment : Environment Unit Empty Empty where
  executable := .plain schema
  service := service
  fieldResolver := service.defaultResolver
  request := { schema, operation, variableValues := [], fragments := .empty, root := .json flagged }

def flaggedRecord : Slot :=
  (.named "Query" false, .object [(.key "user", .named "User" false, .object
    [(.key "name", .named "String" true, .leaf (.string "true"))])])

theorem flagged_derivation : RunDerivation flaggedEnvironment query () flaggedRecord () := by
  refine .root ?_
  change ChildrenDerivation _ _ (Environment.fieldsOf _ _ _ _
    (flaggedEnvironment.selectedFields query selections)) _ _ _
  rw [selectedFields_user rfl]
  refine .cons rfl (.object rfl ?_) rfl (.nil _ _)
  change ChildrenDerivation _ _ (Environment.fieldsOf _ _ _ _
    (flaggedEnvironment.selectedFields user [.field nameHead []])) _ _ _
  rw [selectedFields_name rfl]
  exact .cons rfl (.leaf rfl) rfl (.nil _ _)

theorem unaliased_request : request.document.Unaliased := by
  have hname : (Selection.field nameHead []).Unaliased := .field rfl nofun
  have huser : (Selection.field userHead [.field nameHead []]).Unaliased :=
    .field rfl (List.forall_mem_singleton.mpr hname)
  exact List.forall_mem_singleton.mpr (List.forall_mem_singleton.mpr huser)

/-- The data of the response: the name is text from now on. -/
def spelled : Members := [("user", .object [("name", .string "true")])]

def spelledRequest : Request Unit Empty Empty := { request with root := .json (.object spelled) }

theorem flagged_idempotent :
    flaggedRecord.toResponse.data = .object spelled ∧
      ∃ bound, ∀ depth ≥ bound, ∃ again,
        spelledRequest.executeWithin depth (.plain schema) service () = some (.ok again, ()) ∧
          again.data = .object spelled := by
  have hprepare : flaggedRequest.prepare (.plain schema) service =
      .ok (flaggedEnvironment, query) := rfl
  have hresolver : flaggedRequest.fieldResolver? = none := rfl
  have hdata : flaggedRecord.toResponse.data = .object spelled := rfl
  obtain ⟨bound, hbound⟩ := Request.executeWithin_of_derivation hprepare flagged_derivation
  have hanswered := hbound bound (Nat.le_refl bound)
  exact ⟨hdata, Request.data_idempotent hresolver unaliased_request rfl hanswered hdata ()⟩

end Sample

end GraphQL
