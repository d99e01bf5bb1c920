import HazardFlow.Profile
import Mathlib.Data.List.GetD

/-!
# What a profile holds

A profile fills its slots from the first one on, and what it has not filled is zero. So it is told
by its name, its operation and its parameters alone, however many changes made it and whichever of
them were refused. A change adds all its values, or none when there is no room for them.
-/

namespace HazardFlow.Profile

variable {name name' : String} {operation operation' : Nat} {params params' : List UInt64}
  {p : Profile}

/-- The values that a change is to add. -/
def Change.values : Change → List UInt64
  | .push param => [param.pack]
  | .append params => params.map Scalar.pack

/-- The changes that are not refused when they are made in turn. -/
def accepted (p : Profile) (changes : List Change) : List Change :=
  ((changes.zip (p.changeAll changes).2).filter fun entry => entry.2.isOk).map Prod.fst

/-- The profile that holds some parameters in its first slots, and zero in the others. -/
def holding (name : String) (operation : Nat) (params : List UInt64) : Profile where
  name
  operation
  slots := Vector.ofFn fun i => params.getD i 0
  used := params.length

theorem new_eq_holding (name : String) (operation : Nat) :
    new name operation = holding name operation [] := rfl

theorem params_holding (name : String) (operation : Nat) (h : params.length ≤ maxParams) :
    (holding name operation params).params = params := by
  refine List.ext_getElem ?_ fun i hi hi' => ?_
  · simpa [Profile.params, holding] using Nat.min_eq_left h
  · simp [Profile.params, holding, hi']

/-- The slots after the parameters are zero. -/
theorem slots_holding {i : Nat} (hi : i < maxParams) (hunused : params.length ≤ i) :
    (holding name operation params).slots[i] = 0 := by
  simp [holding, hunused]

/-- Nothing but name, operation and parameters tells two profiles apart. -/
theorem holding_inj (h : params.length ≤ maxParams) (h' : params'.length ≤ maxParams) :
    holding name operation params = holding name' operation' params' ↔
      name = name' ∧ operation = operation' ∧ params = params' := by
  constructor
  · intro heq
    have hparams := congrArg Profile.params heq
    rw [params_holding _ _ h, params_holding _ _ h'] at hparams
    exact ⟨congrArg Profile.name heq, congrArg Profile.operation heq, hparams⟩
  · rintro ⟨rfl, rfl, rfl⟩
    rfl

/-- One more parameter takes the first slot that is not used. -/
theorem push_holding (value : UInt64) : (holding name operation params).push value =
    if params.length < maxParams then .ok (holding name operation (params ++ [value]))
    else .error .tooManyParams := by
  have hused : (holding name operation params).used = params.length := rfl
  unfold push
  by_cases hroom : params.length < maxParams
  · rw [dif_pos (hused ▸ hroom), if_pos hroom]
    congr 1
    unfold holding
    congr 1
    · refine Vector.ext fun i hi => ?_
      rw [Vector.getElem_set, Vector.getElem_ofFn, Vector.getElem_ofFn]
      dsimp only
      split
      · next heq =>
        subst heq
        simp
      · next hne =>
        rcases Nat.lt_or_gt_of_ne hne with hlt | hgt
        · rw [List.getD_eq_default _ _ (Nat.le_of_lt hlt), List.getD_eq_default]
          rw [List.length_append, List.length_singleton]
          exact hlt
        · rw [List.getD_append _ _ _ _ hgt]
    · rw [List.length_append, List.length_singleton]
  · rw [dif_neg (hused ▸ hroom), if_neg hroom]

/-- Values are added together, or none of them is. -/
theorem append_holding (h : params.length ≤ maxParams) (values : List UInt64) :
    (holding name operation params).append values =
      if params.length + values.length ≤ maxParams then
        .ok (holding name operation (params ++ values))
      else .error .tooManyParams := by
  induction values generalizing params with
  | nil => rw [List.length_nil, Nat.add_zero, if_pos h, List.append_nil]; rfl
  | cons value rest ih =>
    have hstep : (holding name operation params).append (value :: rest) =
        ((holding name operation params).push value).bind fun q => q.append rest := rfl
    rw [hstep, push_holding, List.length_cons]
    by_cases hroom : params.length < maxParams
    · have hmore : (params ++ [value]).length = params.length + 1 := by
        rw [List.length_append, List.length_singleton]
      rw [if_pos hroom]
      change (holding name operation (params ++ [value])).append rest = _
      rw [ih (hmore ▸ hroom), hmore, List.append_assoc, List.singleton_append,
        Nat.add_right_comm, Nat.add_assoc]
    · rw [if_neg hroom, if_neg (by omega)]
      rfl

/-- A change adds its values. -/
theorem apply_eq_append (p : Profile) (c : Change) : p.apply c = p.append c.values := by
  cases c with
  | push param =>
    change p.push param.pack = (p.push param.pack).bind fun q => .ok q
    cases p.push param.pack <;> rfl
  | append params => rfl

/-- Adding values and then others is adding all of them. -/
theorem append_append (p : Profile) (values more : List UInt64) :
    p.append (values ++ more) = (p.append values).bind fun q => q.append more :=
  List.foldlM_append

/-- A change is made when there is room for all its values. -/
theorem apply_holding (name : String) (operation : Nat) (h : params.length ≤ maxParams)
    (c : Change) :
    (holding name operation params).apply c =
      if params.length + c.values.length ≤ maxParams then
        .ok (holding name operation (params ++ c.values))
      else .error .tooManyParams := by
  rw [apply_eq_append, append_holding h]

/-- There is room for a change. -/
theorem change_of_room (name : String) (operation : Nat) {c : Change}
    (h : params.length + c.values.length ≤ maxParams) :
    (holding name operation params).change c =
      (holding name operation (params ++ c.values), .ok (params.length + c.values.length)) := by
  unfold change
  rw [apply_holding _ _ (Nat.le_trans (Nat.le_add_right ..) h), if_pos h]
  dsimp only
  rw [params_holding _ _ (by rwa [List.length_append]), List.length_append]

/-- There is no room for a change, which leaves the profile as it is. -/
theorem change_of_no_room (name : String) (operation : Nat) {c : Change}
    (h : params.length ≤ maxParams) (hfull : ¬params.length + c.values.length ≤ maxParams) :
    (holding name operation params).change c =
      (holding name operation params, .error .tooManyParams) := by
  unfold change
  rw [apply_holding _ _ h, if_neg hfull]

/-- Changes made in turn add the values of those that are not refused. -/
theorem changeAll_holding (name : String) (operation : Nat) (h : params.length ≤ maxParams)
    (changes : List Change) :
    let values := ((holding name operation params).accepted changes).flatMap Change.values
    ((holding name operation params).changeAll changes).1 =
        holding name operation (params ++ values) ∧
      (params ++ values).length ≤ maxParams := by
  induction changes generalizing params with
  | nil => exact ⟨by rw [show accepted _ [] = [] from rfl, List.flatMap_nil, List.append_nil]; rfl,
      by simpa [accepted] using h⟩
  | cons c rest ih =>
    by_cases hroom : params.length + c.values.length ≤ maxParams
    · have hchange := change_of_room name operation hroom
      have hlength : (params ++ c.values).length ≤ maxParams := by rwa [List.length_append]
      have hlater := ih hlength
      simp only [accepted, changeAll, hchange, List.zip_cons_cons, Except.isOk, Except.toBool,
        List.filter_cons_of_pos, List.map_cons, List.flatMap_cons, List.append_assoc] at hlater ⊢
      exact hlater
    · have hchange := change_of_no_room name operation h hroom
      have hlater := ih h
      simp only [accepted, changeAll, hchange, List.zip_cons_cons, Except.isOk, Except.toBool,
        Bool.false_eq_true, not_false_eq_true, List.filter_cons_of_neg] at hlater ⊢
      exact hlater

/-- The last change is made to what came of the others, and answers last. -/
theorem changeAll_concat (p : Profile) (changes : List Change) (c : Change) :
    p.changeAll (changes ++ [c]) = (((p.changeAll changes).1.change c).1,
      (p.changeAll changes).2 ++ [((p.changeAll changes).1.change c).2]) := by
  induction changes generalizing p with
  | nil => rfl
  | cons first rest ih => simp only [List.cons_append, changeAll, ih]

/-- What a profile is that came of changes to a new one. -/
structure AppendsExactly (name : String) (operation : Nat) (changes : List Change)
    (p : Profile) : Prop where
  sameName : p.name = name
  sameOperation : p.operation = operation
  /-- Its parameters are the values of the changes that were not refused, in order. -/
  params_eq : p.params = ((new name operation).accepted changes).flatMap Change.values
  unused : ∀ (i : Nat) (hi : i < maxParams), p.params.length ≤ i → p.slots[i] = 0
  /-- Another change is made just when there is room for all its values. -/
  apply_iff : ∀ c : Change, (∃ q, p.apply c = .ok q) ↔
    p.params.length + c.values.length ≤ maxParams
  made : ∀ (c : Change) (q : Profile), p.apply c = .ok q → p.change c = (q, .ok q.params.length) ∧
    q.name = p.name ∧ q.operation = p.operation ∧ q.params = p.params ++ c.values
  refused : ∀ (c : Change) (cause : ProfileError), p.apply c = .error cause →
    p.change c = (p, .error .tooManyParams)
  nil : p.apply (.append []) = .ok p
  /-- It does not matter whether values are added at once or in two parts. -/
  append : ∀ values more : List Scalar, p.apply (.append (values ++ more)) =
    (p.apply (.append values)).bind fun q => q.apply (.append more)
  /-- What comes of a change comes of all changes up to it, and so does its answer. -/
  later : ∀ c : Change, (new name operation).changeAll (changes ++ [c]) =
    ((p.change c).1, ((new name operation).changeAll changes).2 ++ [(p.change c).2])
  /-- Unused slots never tell it from another profile that came of changes. -/
  eq_iff : ∀ (name' : String) (operation' : Nat) (changes' : List Change),
    let q := ((new name' operation').changeAll changes').1
    p = q ↔ p.name = q.name ∧ p.operation = q.operation ∧ p.params = q.params

/-- Whatever changes are made to a new profile, and whichever of them are refused: it holds the
values of the others, and nothing else can be seen of it. -/
theorem appendsExactly_changeAll (name : String) (operation : Nat) (changes : List Change) :
    AppendsExactly name operation changes ((new name operation).changeAll changes).1 := by
  have hempty : ([] : List UInt64).length ≤ maxParams := Nat.zero_le _
  have hlater := changeAll_concat (new name operation) changes
  obtain ⟨hfinal, hlength⟩ := changeAll_holding name operation hempty changes
  rw [new_eq_holding, hfinal] at hlater ⊢
  rw [List.nil_append] at hlength hlater ⊢
  have hparams := params_holding name operation hlength
  have happly := apply_holding name operation hlength
  refine ⟨rfl, rfl, hparams, ?_, fun c => ?_, fun c q hq => ?_, fun c cause hcause => ?_, rfl,
    fun values more => ?_, hlater, fun name' operation' changes' => ?_⟩
  · rw [hparams]
    exact fun i hi hunused => slots_holding hi hunused
  · rw [happly c, hparams]
    split
    · next hroom => exact iff_of_true ⟨_, rfl⟩ hroom
    · next hfull => exact iff_of_false nofun hfull
  · rw [happly c] at hq
    split at hq
    · next hroom =>
      cases hq
      have hall := params_holding name operation (List.length_append ▸ hroom)
      rw [change_of_room _ _ hroom, hparams, hall, List.length_append]
      exact ⟨rfl, rfl, rfl, rfl⟩
    · cases hq
  · rw [happly c] at hcause
    split at hcause
    · cases hcause
    · next hfull => exact change_of_no_room _ _ hlength hfull
  · simp only [apply_eq_append, Change.values, List.map_append, append_append]
  · obtain ⟨hother, hlength'⟩ := changeAll_holding name' operation' hempty changes'
    rw [List.nil_append] at hlength' hother
    dsimp only
    rw [new_eq_holding, hother, hparams, params_holding _ _ hlength',
      holding_inj hlength hlength']
    rfl

/-- Six values are refused together where there is room for five, and one more is added after that.
Profiles that took the same values are the same, one by one or at once. -/
theorem appendsExactly_changeAll_refusedBetween :
    let three : List Scalar := [.integer 1, .integer (-1), .double 7]
    let changes : List Change := [.append three, .append (three ++ three), .push (.integer 2)]
    AppendsExactly "axpy" 7 changes ((new "axpy" 7).changeAll changes).1 ∧
      (new "axpy" 7).changeAll changes =
        (((new "axpy" 7).changeAll ((three ++ [Scalar.integer 2]).map .push)).1,
          [.ok 3, .error .tooManyParams, .ok 4]) :=
  ⟨appendsExactly_changeAll .., rfl⟩

end HazardFlow.Profile
