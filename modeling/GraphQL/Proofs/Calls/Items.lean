import GraphQL.Proofs.Calls.Recording
import GraphQL.Proofs.Execution.Run
import GraphQL.Proofs.Execution.Validity

/-! # Items of lists

The items of a list are pulled one by one, and each is completed, with all that lies below it,
before the next one is pulled. If items may be null then all of them are pulled. If they may not,
then the first one that fails is the last. -/

namespace GraphQL

variable {State Object Item : Type}

/-! ## Runs after earlier calls -/

/-- A recorded state as it is if the calls were made after earlier ones. -/
def CallLog.before (earlier : CallLog Object Item) (recorded : State × CallLog Object Item) :
    State × CallLog Object Item :=
  (recorded.1, earlier ++ recorded.2)

theorem tracks_noting_after {α : Type} (earlier : CallLog Object Item)
    (call : Call Object Item (ResolveInfo Object Item)) (hook : StateM State α) :
    Tracks (fun late early => late = earlier.before early) Eq (noting call hook)
      (noting call hook) := by
  rintro _ ⟨state, calls⟩ rfl
  exact ⟨rfl, congrArg (Prod.mk (hook.run state).2) (List.append_assoc earlier calls [call])⟩

namespace Environment

variable (env : Environment State Object Item)

/-- What was called before a run makes no difference to it. -/
theorem runsTrack_after (earlier : CallLog Object Item) :
    RunsTrack (fun late early => late = earlier.before early) Eq Eq env.recorded env.recorded where
  schema := rfl
  parent := congrArg ResolveInfo.parent
  fieldName := congrArg ResolveInfo.fieldName
  serializers type := by
    rw [executable_recorded, ExecutableSchema.serializer?_recorded]
    exact optionRel_map fun run _ value => tracks_noting_after earlier _ _
  typeResolvers type := by
    rw [executable_recorded, ExecutableSchema.typeResolver?_recorded]
    refine optionRel_map fun run _ value info _ heq => ?_
    exact heq ▸ tracks_noting_after earlier _ _
  typePredicates type := by
    rw [executable_recorded, ExecutableSchema.typePredicate?_recorded]
    refine optionRel_map fun run _ value info _ heq => ?_
    exact heq ▸ tracks_noting_after earlier _ _
  items item := tracks_noting_after earlier _ _
  variableValues := rfl
  definition := congrArg ResolveInfo.definition
  arguments := congrArg fun info : ResolveInfo Object Item => info.group.first.arguments
  locations := congrArg ResolveInfo.locations
  resolvers type field := by
    rw [executable_recorded, ExecutableSchema.resolver?_recorded]
    refine optionRel_map fun run _ source arguments info _ heq => ?_
    exact heq ▸ tracks_noting_after earlier _ _
  fieldResolver source arguments info _ heq := heq ▸ tracks_noting_after earlier _ _
  fields heq path type := heq ▸ List.forall₂_same.mpr fun _ _ => ⟨rfl, rfl, rfl⟩

/-- Completion after earlier calls is completion from none, its calls being added to those. -/
theorem complete_after (depth : Nat) (info : ResolveInfo Object Item) (type : TypeRef) (path : Path)
    (resolved : Except Failure (Resolved Object Item)) (state : State)
    (earlier : CallLog Object Item) :
    Completion.complete env.recorded (env.recorded.executeSelections depth) info type path resolved
        (state, earlier) =
      (Completion.complete env.recorded (env.recorded.executeSelections depth) info type path
        resolved (state, [])).map fun step =>
          ⟨step.outcome, step.errors, earlier.before step.state⟩ := by
  have htracks := env.runsTrack_after earlier
  have hexecute : Completion.ExecutesAlike (fun late early => late = earlier.before early) Eq Eq
      (env.recorded.executeSelections depth) (env.recorded.executeSelections depth) :=
    fun _ _ path type source heq => htracks.executeSelections depth path type source
      (htracks.fields heq path type)
  have hbefore : (state, earlier) = earlier.before (state, []) := by simp [CallLog.before]
  have hcomplete := Completion.completes_of_executes htracks hexecute type info info path resolved
    rfl _ _ hbefore
  rcases optionRel_cases hcomplete with
    ⟨hlate, hearly⟩ | ⟨⟨outcome, errors, last⟩, ⟨outcome', errors', last'⟩, hlate, hearly, halike⟩
  · rw [hlate, hearly]
    rfl
  · obtain rfl : outcome = outcome' := halike.outcome
    obtain rfl : last = earlier.before last' := halike.state
    have herrors : errors = errors' :=
      List.forall₂_eq_eq_eq ▸ halike.errors.imp fun _ _ h => h.eq
    rw [hlate, hearly, herrors]
    rfl

end Environment

/-- The place of a value that is completed after earlier calls. -/
theorem Environment.nullify_after (env : Environment State Object Item) {depth : Nat}
    {info : ResolveInfo Object Item} {type : TypeRef} {path : Path}
    {resolved : Except Failure (Resolved Object Item)} {state next : State} {data? : Option Json}
    {errors : List FieldError} {calls : CallLog Object Item}
    (h : Completion.complete env.recorded (env.recorded.executeSelections depth) info type path
      resolved (state, []) = some ⟨.ofOption data?, errors, (next, calls)⟩)
    (earlier : CallLog Object Item) :
    Exec.nullify type (Completion.complete env.recorded (env.recorded.executeSelections depth) info
        type path resolved) (state, earlier) =
      some ⟨.ofOption (type.settle data?), errors, (next, earlier ++ calls)⟩ := by
  refine Exec.nullify_of_data type ?_
  rw [env.complete_after, h]
  rfl

namespace TypeRef

variable {type : TypeRef} {data? : Option Json} {value : Json}

theorem getD_of_settle (settled : type.settle data? = some value) : data?.getD .null = value := by
  cases data? with
  | some data => exact Option.some.inj settled
  | none => cases hnull : type.nonNull <;> simp_all [settle]

theorem eq_some_of_settle (settled : type.settle data? = some value)
    (nonNull : type.nonNull = true) : data? = some value := by
  cases data? with
  | some data => exact settled
  | none => simp [settle, nonNull] at settled

end TypeRef

theorem Outcome.exists_ofOption {α : Type} (outcome : Outcome α) :
    ∃ result?, outcome = .ofOption result? := by
  cases outcome with
  | value value => exact ⟨some value, rfl⟩
  | nulled => exact ⟨none, rfl⟩

theorem Outcome.ofOption_injective {α : Type} {first second : Option α}
    (h : Outcome.ofOption first = .ofOption second) : first = second := by
  cases first <;> cases second <;> simp_all [ofOption]

/-- Only places of nullable types hold a null. -/
theorem Slot.Valid.ne_null {slot : Slot} (h : slot.Valid) (nonNull : slot.1.nonNull = true) :
    slot.2.data? ≠ some .null := by
  intro hdata
  cases h with
  | failed => cases hdata
  | null nullable => cases nullable.symm.trans nonNull
  | leaf present =>
      cases Option.some.inj hdata
      cases present
  | list | object =>
      obtain ⟨values, -, hvalues⟩ := Option.map_eq_some_iff.mp hdata
      cases hvalues

namespace Completion

/-! ## What becomes of the items -/

/-- What became of an item that was pulled: the data of its completion, or none if it failed, with
its errors and the calls it made. -/
structure ItemRun (Object Item : Type) where
  item : Item
  data? : Option Json
  errors : List FieldError
  calls : CallLog Object Item

/-- The calls for an item: it is pulled and then completed. -/
def ItemRun.log (run : ItemRun Object Item) : CallLog Object Item := .item run.item :: run.calls

/-- An item of a type is pulled, and what it resolves to is completed at its position below `path`,
in the state that the pull has left. -/
inductive ItemStep (env : Environment State Object Item) (depth : Nat)
    (info : ResolveInfo Object Item) (type : TypeRef) (path : Path) (position : Nat) (state : State)
    (run : ItemRun Object Item) (next : State) : Prop
  | intro {resolved pulled} (pull : (env.service.pull run.item).run state = (resolved, pulled))
      (completion : complete env.recorded (env.recorded.executeSelections depth) info type
        (path ++ [.index position]) (resolved.mapError Failure.resolver) (pulled, []) =
          some ⟨.ofOption run.data?, run.errors, (next, run.calls)⟩)

/-- Items are pulled and completed one after the other, each in the state that the completion of the
one before has left. -/
inductive ItemRuns (env : Environment State Object Item) (depth : Nat)
    (info : ResolveInfo Object Item) (type : TypeRef) (path : Path) :
    Nat → State → List (ItemRun Object Item) → State → Prop
  | nil (position state) : ItemRuns env depth info type path position state [] state
  | cons {position state run middle rest last}
      (head : ItemStep env depth info type path position state run middle)
      (tail : ItemRuns env depth info type path (position + 1) middle rest last) :
      ItemRuns env depth info type path position state (run :: rest) last

/-- Which of the items of a list are pulled, and the list that comes of them, or none if an item
sends a null upwards. -/
inductive ListData (type : TypeRef) (items : List Item) :
    List (ItemRun Object Item) → Option (List Json) → Prop
  | nullable {runs} (nullable : type.nonNull = false) (pulled : runs.map ItemRun.item = items) :
      ListData type items runs (some (runs.map fun run => run.data?.getD .null))
  | nonNull {runs values} (nonNull : type.nonNull = true) (pulled : runs.map ItemRun.item = items)
      (completed : runs.map ItemRun.data? = values.map some)
      (present : ∀ value ∈ values, value ≠ .null) : ListData type items runs (some values)
  | nulled {earlier last later} (nonNull : type.nonNull = true)
      (pulled : items = earlier.map ItemRun.item ++ last.item :: later)
      (completed : ∀ run ∈ earlier, ∃ value, run.data? = some value) (failed : last.data? = none) :
      ListData type items (earlier ++ [last]) none

/-! ## Items one by one -/

namespace ListData

variable {type : TypeRef} {items : List Item} {run : ItemRun Object Item}
  {runs : List (ItemRun Object Item)} {values? : Option (List Json)} {value : Json}

theorem nil (type : TypeRef) : ListData type ([] : List Item) ([] : List (ItemRun Object Item))
    (some []) := by
  cases hnull : type.nonNull with
  | false => exact .nullable hnull rfl
  | true => exact .nonNull hnull rfl rfl nofun

/-- After an item that sends a null upwards no other is pulled. -/
theorem stop (nulled : type.settle run.data? = none) (later : List Item) :
    ListData type (run.item :: later) [run] none := by
  have ⟨hfailed, hnonNull⟩ := TypeRef.settle_eq_none.mp nulled
  have hitems : run.item :: later =
      ([] : List (ItemRun Object Item)).map ItemRun.item ++ run.item :: later := rfl
  exact .nulled hnonNull hitems nofun hfailed

theorem cons (settled : type.settle run.data? = some value)
    (present : type.nonNull = true → value ≠ .null) (h : ListData type items runs values?) :
    ListData type (run.item :: items) (run :: runs) (values?.map (value :: ·)) := by
  cases h with
  | nullable nullable pulled =>
      rw [← TypeRef.getD_of_settle settled]
      exact .nullable nullable (congrArg (run.item :: ·) pulled)
  | nonNull nonNull pulled completed present' =>
      refine .nonNull nonNull (congrArg (run.item :: ·) pulled) ?_ ?_
      · rw [List.map_cons, TypeRef.eq_some_of_settle settled nonNull, completed, List.map_cons]
      · exact List.forall_mem_cons.mpr ⟨present nonNull, present'⟩
  | @nulled earlier last later nonNull pulled completed failed =>
      have hcompleted : ∀ other ∈ run :: earlier, ∃ value, other.data? = some value :=
        List.forall_mem_cons.mpr ⟨⟨value, TypeRef.eq_some_of_settle settled nonNull⟩, completed⟩
      exact .nulled nonNull (congrArg (run.item :: ·) pulled) hcompleted failed

theorem of_nil (h : ListData type items ([] : List (ItemRun Object Item)) values?) :
    items = [] ∧ values? = some [] := by
  generalize hruns : ([] : List (ItemRun Object Item)) = runs at h
  cases h with
  | nullable nullable pulled =>
      subst hruns
      exact ⟨pulled.symm, rfl⟩
  | nonNull nonNull pulled completed =>
      subst hruns
      obtain rfl := List.map_eq_nil_iff.mp completed.symm
      exact ⟨pulled.symm, rfl⟩
  | nulled => simp at hruns

/-- The first item that was pulled is the first of the list. It was the last, or others followed
that make up the rest of the list. -/
theorem cases_cons (h : ListData type items (run :: runs) values?) :
    ∃ others, items = run.item :: others ∧
      (type.settle run.data? = none ∧ runs = [] ∧ values? = none ∨
        ∃ value rest?, type.settle run.data? = some value ∧ ListData type others runs rest? ∧
          values? = rest?.map (value :: ·)) := by
  generalize hruns : run :: runs = all at h
  cases h with
  | nullable nullable pulled =>
      subst hruns
      refine ⟨_, pulled.symm, .inr ⟨run.data?.getD .null, _, ?_, .nullable nullable rfl, rfl⟩⟩
      cases run.data? <;> simp [TypeRef.settle, nullable]
  | @nonNull _ values nonNull pulled completed present =>
      subst hruns
      cases values with
      | nil => simp at completed
      | cons value values =>
          obtain ⟨hvalue, hvalues⟩ := List.cons.inj completed
          refine ⟨_, pulled.symm, .inr ⟨value, some values, ?_, ?_, rfl⟩⟩
          · rw [hvalue, TypeRef.settle_some]
          · exact .nonNull nonNull rfl hvalues (List.forall_mem_cons.mp present).2
  | @nulled earlier last later nonNull pulled completed failed =>
      cases earlier with
      | nil =>
          obtain ⟨rfl, rfl⟩ := List.cons.inj hruns
          exact ⟨later, pulled, .inl ⟨TypeRef.settle_eq_none.mpr ⟨failed, nonNull⟩, rfl, rfl⟩⟩
      | cons first earlier =>
          obtain ⟨rfl, rfl⟩ := List.cons.inj hruns
          obtain ⟨⟨value, hvalue⟩, hcompleted⟩ := List.forall_mem_cons.mp completed
          refine ⟨_, pulled, .inr ⟨value, none, ?_, .nulled nonNull rfl hcompleted failed, rfl⟩⟩
          rw [hvalue, TypeRef.settle_some]

end ListData

/-! ## A list is completed item by item -/

section

variable {env : Environment State Object Item} {depth : Nat} {info : ResolveInfo Object Item}
  {type : TypeRef} {path : Path} {position : Nat} {state pulled next last : State}
  {resolved : ResolverResult Object Item} {run : ItemRun Object Item}
  {runs : List (ItemRun Object Item)} {values? : Option (List Json)}

variable (env depth info type path) in
/-- The items of a list, completed from a position on. -/
def completeFrom (position : Nat) (items : List Item) :
    Exec (State × CallLog Object Item) (List Json) :=
  completeItems path type (complete env.recorded (env.recorded.executeSelections depth) info type)
    position (items.map env.recorded.service.pull)

theorem completeFrom_cons {item : Item}
    (pull : (env.service.pull item).run state = (resolved, pulled)) (items : List Item)
    (calls : CallLog Object Item) :
    completeFrom env depth info type path position (item :: items) (state, calls) =
      (Exec.nullify type (complete env.recorded (env.recorded.executeSelections depth) info type
          (path ++ [.index position]) (resolved.mapError Failure.resolver)) >>= fun value =>
        (value :: ·) <$> completeFrom env depth info type path (position + 1) items)
        (pulled, calls ++ [.item item]) := by
  have hnoted : (env.recorded.service.pull item).run (state, calls) =
      (resolved, (pulled, calls ++ [.item item])) := run_noting pull calls
  rw [completeFrom, List.map_cons, completeItems, Exec.call_bind_apply, hnoted]
  simp only [bind_pure_comp, completeFrom]

theorem completeFrom_tooDeep {item : Item}
    (pull : (env.service.pull item).run state = (resolved, pulled))
    (tooDeep : complete env.recorded (env.recorded.executeSelections depth) info type
      (path ++ [.index position]) (resolved.mapError Failure.resolver) (pulled, []) = none)
    (items : List Item) (calls : CallLog Object Item) :
    completeFrom env depth info type path position (item :: items) (state, calls) = none := by
  rw [completeFrom_cons pull, Exec.bind_of_tooDeep]
  rw [Exec.nullify, env.complete_after, tooDeep]
  rfl

namespace ItemStep

/-- An item of a type that does not allow null is not completed with null. -/
theorem ne_null (h : ItemStep env depth info type path position state run next)
    (nonNull : type.nonNull = true) : run.data? ≠ some .null := by
  obtain ⟨-, completion⟩ := h
  obtain ⟨place, last, hplace, hstep⟩ :=
    env.recorded.complete_derivation depth info type _ _ _ _ completion
  rw [Outcome.ofOption_injective (congrArg Step.outcome hstep)]
  exact hplace.valid.ne_null nonNull

/-- An item that sends a null upwards ends the list. -/
theorem completeFrom_stop (h : ItemStep env depth info type path position state run next)
    (nulled : type.settle run.data? = none) (items : List Item) (calls : CallLog Object Item) :
    completeFrom env depth info type path position (run.item :: items) (state, calls) =
      some ⟨.nulled, run.errors, (next, calls ++ run.log)⟩ := by
  cases h with
  | intro pull completion =>
      have hplace := env.nullify_after completion (calls ++ [.item run.item])
      rw [nulled, List.append_assoc] at hplace
      rw [completeFrom_cons pull, Exec.bind_of_nulled hplace]
      rfl

/-- After an item that settles, the list goes on where the item ends. -/
theorem completeFrom_settled (h : ItemStep env depth info type path position state run next)
    {value : Json} (settled : type.settle run.data? = some value) (items : List Item)
    (calls : CallLog Object Item) :
    completeFrom env depth info type path position (run.item :: items) (state, calls) =
      (((value :: ·) <$> completeFrom env depth info type path (position + 1) items)
        (next, calls ++ run.log)).map fun step =>
          ⟨step.outcome, run.errors ++ step.errors, step.state⟩ := by
  cases h with
  | intro pull completion =>
      have hplace := env.nullify_after completion (calls ++ [.item run.item])
      rw [settled, List.append_assoc] at hplace
      rw [completeFrom_cons pull, Exec.bind_of_value hplace]
      rfl

theorem completeFrom_of_rest (h : ItemStep env depth info type path position state run next)
    {value : Json} (settled : type.settle run.data? = some value) {items : List Item}
    {calls rest : CallLog Object Item} {errors : List FieldError}
    (tail : completeFrom env depth info type path (position + 1) items (next, calls ++ run.log) =
      some ⟨.ofOption values?, errors, (last, calls ++ run.log ++ rest)⟩) :
    completeFrom env depth info type path position (run.item :: items) (state, calls) =
      some ⟨.ofOption (values?.map (value :: ·)), run.errors ++ errors,
        (last, calls ++ (run.log ++ rest))⟩ := by
  rw [h.completeFrom_settled settled, Exec.map_apply, tail, List.append_assoc]
  cases values? <;> rfl

end ItemStep

/-- Items that are pulled and completed one by one are what the list is completed from. -/
theorem ItemRuns.completeFrom_eq {items : List Item}
    (h : ItemRuns env depth info type path position state runs last)
    (data : ListData type items runs values?) (calls : CallLog Object Item) :
    completeFrom env depth info type path position items (state, calls) =
      some ⟨.ofOption values?, runs.flatMap ItemRun.errors,
        (last, calls ++ runs.flatMap ItemRun.log)⟩ := by
  induction h generalizing items values? calls with
  | nil position state =>
      obtain ⟨rfl, rfl⟩ := data.of_nil
      simp [completeFrom, completeItems, Pure.pure, Exec.pure, Outcome.ofOption]
  | @cons position state run middle rest last head tail ih =>
      obtain ⟨others, rfl, ⟨hnulled, rfl, rfl⟩ | ⟨value, rest?, hsettled, hrest, rfl⟩⟩ :=
        data.cases_cons
      · cases tail
        have hstop := head.completeFrom_stop hnulled others calls
        simpa [Outcome.ofOption] using hstop
      · exact head.completeFrom_of_rest hsettled (ih hrest (calls ++ run.log))

/-- The first item of a list that is completed is pulled and completed. -/
theorem exists_itemStep {item : Item} {items : List Item} {calls : CallLog Object Item}
    {step : Step (State × CallLog Object Item) (List Json)}
    (h : completeFrom env depth info type path position (item :: items) (state, calls) =
      some step) :
    ∃ run next, run.item = item ∧ ItemStep env depth info type path position state run next := by
  cases hpull : (env.service.pull item).run state with
  | mk resolved pulled =>
      cases hcompletion : complete env.recorded (env.recorded.executeSelections depth) info type
          (path ++ [.index position]) (resolved.mapError Failure.resolver) (pulled, []) with
      | none =>
          rw [completeFrom_tooDeep hpull hcompletion] at h
          cases h
      | some inner =>
          obtain ⟨outcome, errors, next, own⟩ := inner
          have ⟨data?, hdata⟩ := outcome.exists_ofOption
          rw [hdata] at hcompletion
          exact ⟨⟨item, data?, errors, own⟩, next, rfl, .intro hpull hcompletion⟩

/-- A list that is completed is completed from items that are pulled and completed one by one:
induction on the items. -/
theorem exists_itemRuns {items : List Item} {calls : CallLog Object Item}
    {step : Step (State × CallLog Object Item) (List Json)}
    (h : completeFrom env depth info type path position items (state, calls) = some step) :
    ∃ runs values? last, ItemRuns env depth info type path position state runs last ∧
      ListData type items runs values? := by
  induction items generalizing position state calls step with
  | nil => exact ⟨[], some [], state, .nil position state, .nil type⟩
  | cons item items ih =>
      obtain ⟨run, next, rfl, hstep⟩ := exists_itemStep h
      cases hsettled : type.settle run.data? with
      | none => exact ⟨[run], none, next, .cons hstep (.nil _ _), .stop hsettled items⟩
      | some value =>
          have hpresent : type.nonNull = true → value ≠ .null := by
            rintro hnonNull rfl
            exact hstep.ne_null hnonNull (TypeRef.eq_some_of_settle hsettled hnonNull)
          rw [hstep.completeFrom_settled hsettled, Exec.map_apply] at h
          obtain ⟨_, hrest, -⟩ := Option.map_eq_some_iff.mp h
          obtain ⟨tail, htail, -⟩ := Option.map_eq_some_iff.mp hrest
          obtain ⟨runs, values?, last, hruns, hdata⟩ := ih htail
          exact ⟨run :: runs, _, last, .cons hstep hruns, .cons hsettled hpresent hdata⟩

end

/-- A list whose items are pulled one by one is completed from the items that are pulled: its
errors and calls are theirs, in order, and it has their data or sends a null upwards. -/
theorem complete_list (env : Environment State Object Item) (depth : Nat)
    (info : ResolveInfo Object Item) (item : TypeRef) (nonNull : Bool) (path : Path)
    (items : List Item) (state : State) (calls : CallLog Object Item)
    (step : Step (State × CallLog Object Item) Json) :
    complete env.recorded (env.recorded.executeSelections depth) info (.list item nonNull) path
        (.ok (.list items)) (state, calls) = some step ↔
      ∃ runs values? last, ItemRuns env depth info item path 0 state runs last ∧
        ListData item items runs values? ∧
        step = ⟨.ofOption (values?.map Json.array), runs.flatMap ItemRun.errors,
          (last, calls ++ runs.flatMap ItemRun.log)⟩ := by
  have hcomplete : complete env.recorded (env.recorded.executeSelections depth) info
      (.list item nonNull) path (.ok (.list items)) =
        Json.array <$> completeFrom env depth info item path 0 items := by
    rw [← bind_pure_comp]
    rfl
  have hlist {runs : List (ItemRun Object Item)} {values? : Option (List Json)} {last : State}
      (hruns : ItemRuns env depth info item path 0 state runs last)
      (hdata : ListData item items runs values?) :
      (Json.array <$> completeFrom env depth info item path 0 items) (state, calls) =
        some ⟨.ofOption (values?.map Json.array), runs.flatMap ItemRun.errors,
          (last, calls ++ runs.flatMap ItemRun.log)⟩ := by
    rw [Exec.map_apply, hruns.completeFrom_eq hdata]
    cases values? <;> rfl
  rw [hcomplete]
  constructor
  · intro h
    have hsome := h
    rw [Exec.map_apply] at hsome
    obtain ⟨_, hitems, -⟩ := Option.map_eq_some_iff.mp hsome
    obtain ⟨runs, values?, last, hruns, hdata⟩ := exists_itemRuns hitems
    exact ⟨runs, values?, last, hruns, hdata, Option.some.inj (h.symm.trans (hlist hruns hdata))⟩
  · rintro ⟨runs, values?, last, hruns, hdata, rfl⟩
    exact hlist hruns hdata

end Completion

namespace Sample

/-- Items 0 and 4 are lists of items, item 2 is null, and the others are text. -/
def rows : Service Unit Empty Nat where
  resolveField := nofun
  pull item := pure (.ok (match item with
    | 0 => .list [1, 2, 3]
    | 2 => .json .null
    | 4 => .list [1]
    | _ => .json (.string "text")))

def rowsEnvironment : Environment Unit Empty Nat where
  executable := { schema }
  service := rows
  fieldResolver := rows.defaultResolver
  request := { schema, operation, variableValues := [], fragments := .empty, root := .json .null }

def rowsInfo : ResolveInfo Empty Nat where
  request := rowsEnvironment.request
  parent := query
  definition := { name := "rows", type := .list (.list (.named "String" true) false) false }
  group := ⟨"rows", ⟨{ name := "rows", location := ⟨1, 3⟩ }, []⟩, []⟩
  path := [.key "rows"]

-- The null in the first row ends this row, before its last item is pulled, and no other.
example :
    Completion.complete rowsEnvironment.recorded (rowsEnvironment.recorded.executeSelections 0)
        rowsInfo rowsInfo.definition.type rowsInfo.path (.ok (.list [0, 4])) ((), []) =
      some ⟨.value (.array [.null, .array [.string "text"]]),
        [⟨.nullNotAllowed "Query" "rows", [.key "rows", .index 0, .index 1], [⟨1, 3⟩]⟩],
        ((), [.item 0, .item 1, .item 2, .item 4, .item 1])⟩ := by
  rfl

end Sample

end GraphQL
