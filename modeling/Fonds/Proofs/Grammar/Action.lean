import Fonds.Action.Reader
import Fonds.Proofs.Grammar.Lookup

/-!
Reading actions. All operators but one list operands by field; what differs is how an operand is
taken apart and what is asked of it then.
-/
namespace Fonds

variable {α β : Type} {operand v : Json}

theorem ActionOperator.ofToken?_eq_some_iff {token : String} {op : ActionOperator} :
    ofToken? token = some op ↔ token = op.token :=
  find?_token_eq_some_iff ofToken?_token

theorem ArrayEnd.exists_build_iff {n : Int} : (∃ e, build n = .ok e) ↔ n = 1 ∨ n = -1 := by
  rw [build]
  split
  next h => simp [h]
  next h =>
    split
    next h' => simp [h']
    next h' => simp [h, h']

namespace Fields

variable {operator : ActionOperator} {check : β → Built α}

/-- The entry that an operand makes. -/
def named (construct : String) (check : β → Built α) (entry : String × β) : Built (Name × α) := do
  let name ← Name.build construct entry.1
  let operand ← check entry.2
  .ok (name, operand)

theorem extend_eq_ok_iff {construct : String} (known : OrderedMap Name α) (entry : String × β)
    (m : OrderedMap Name α) : extend construct check known entry = .ok m ↔
      ∃ e, named construct check entry = .ok e ∧ e.1 ∉ known.keys ∧ m = known.insert e.1 e.2 := by
  simp only [extend, named, bind_eq_ok]
  constructor
  · rintro ⟨name, hname, operand, hoperand, h⟩
    split at h
    next => exact absurd h (by simp)
    next hnew =>
      rw [OrderedMap.get?, Entries.isSome_get?_iff] at hnew
      exact ⟨(name, operand), ⟨name, hname, operand, hoperand, rfl⟩, hnew,
        (Except.ok.inj h).symm⟩
  · rintro ⟨e, ⟨name, hname, operand, hoperand, he⟩, hnew, rfl⟩
    obtain rfl := Except.ok.inj he
    refine ⟨name, hname, operand, hoperand, if_neg ?_⟩
    rwa [OrderedMap.get?, Entries.isSome_get?_iff]

theorem exists_build_iff {entries : List (String × β)} :
    (∃ f, build operator check entries = .ok f) ↔ ∃ m : OrderedMap Name α,
      entries.mapM (named operator.token check) = .ok m.entries ∧ m.entries ≠ [] := by
  simp only [← OrderedMap.foldlM_eq_ok_iff extend_eq_ok_iff]
  constructor
  · rintro ⟨f, h⟩
    obtain ⟨m, hm, h⟩ := bind_eq_ok.1 h
    split at h
    next => exact absurd h (by simp)
    next hne => exact ⟨m, hm, hne⟩
  · rintro ⟨m, hm, hne⟩
    exact ⟨_, by rw [build, hm, ok_bind, dif_neg hne]⟩

end Fields

namespace Action

/-- An entry with its value taken apart. -/
def readField (read : Json → Built β) (entry : String × Json) : Built (String × β) := do
  let value ← read entry.2
  .ok (entry.1, value)

variable {operator : ActionOperator} {check : β → Built α} {read : Json → Built β}
  {form : Json → Prop}

theorem readField_named_eq_ok_iff {construct : String} {e : String × Json} {p : Name × α} :
    (readField read e >>= Fields.named construct check) = .ok p ↔
      Name.build construct e.1 = .ok p.1 ∧ ∃ b, read e.2 = .ok b ∧ check b = .ok p.2 := by
  simp only [readField, Fields.named, bind_eq_ok]
  constructor
  · rintro ⟨_, ⟨b, hb, h⟩, name, hname, a, ha, hp⟩
    obtain rfl := Except.ok.inj h
    obtain rfl := Except.ok.inj hp
    exact ⟨hname, b, hb, ha⟩
  · rintro ⟨hname, b, hb, ha⟩
    exact ⟨_, ⟨b, hb, rfl⟩, p.1, hname, p.2, ha, rfl⟩

/-- Operands are read if and only if each is of the form that the operator asks for. -/
theorem exists_readFields_iff
    (hform : ∀ v, (∃ b, read v = .ok b ∧ ∃ a, check b = .ok a) ↔ form v) :
    (∃ f, (readFields operator.token operand read >>= Fields.build operator check) = .ok f) ↔
      Fields.IsFieldsOf form operand := by
  have hentry : ∀ e : String × Json,
      (∃ p, (readField read e >>= Fields.named operator.token check) = .ok p) ↔
        ¬ Text.Blank e.1 ∧ form e.2 := by
    intro e
    simp only [readField_named_eq_ok_iff, ← hform, ← Name.exists_build_iff operator.token]
    constructor
    · rintro ⟨p, hname, b, hb, ha⟩
      exact ⟨⟨p.1, hname⟩, b, hb, p.2, ha⟩
    · rintro ⟨⟨name, hname⟩, b, hb, a, ha⟩
      exact ⟨(name, a), hname, b, hb, ha⟩
  have hname : ∀ (e : String × Json) p,
      (readField read e >>= Fields.named operator.token check) = .ok p →
        Text.trim e.1 = p.1.text :=
    fun e p h => Name.text_of_build (readField_named_eq_ok_iff.1 h).1
  have hentries : ∀ entries : List (String × Json),
      (∃ fields, entries.mapM (readField read) = .ok fields ∧
        ∃ f, Fields.build operator check fields = .ok f) ↔
      entries ≠ [] ∧ (∀ e ∈ entries, ¬ Text.Blank e.1 ∧ form e.2) ∧
        (entries.map fun e => Text.trim e.1).Nodup := by
    intro entries
    simp only [Fields.exists_build_iff, ← hentry]
    rw [← OrderedMap.exists_mapM_entries_iff Name.text_injective hname]
    simp only [← exists_mapM_mapM_eq_ok]
    constructor
    · rintro ⟨fields, hfields, m, hm, hne⟩
      exact ⟨m, ⟨fields, hfields, hm⟩, hne⟩
    · rintro ⟨m, ⟨fields, hfields, hm⟩, hne⟩
      exact ⟨fields, hfields, m, hm, hne⟩
  rw [exists_bind_eq_ok]
  simp only [readFields, bind_eq_ok, Json.expectObject_eq_ok_iff, Fields.IsFieldsOf, ← hentries]
  constructor
  · rintro ⟨fields, ⟨entries, hoperand, hfields⟩, hbuild⟩
    exact ⟨entries, hoperand, fields, hfields, hbuild⟩
  · rintro ⟨entries, hoperand, fields, hfields, hbuild⟩
    exact ⟨fields, ⟨entries, hoperand, hfields⟩, hbuild⟩

/-- Values that are checked as they are. -/
theorem readFields_ok (construct : String) (operand : Json) :
    readFields construct operand .ok = operand.expectObject construct := by
  rw [readFields]
  cases operand.expectObject construct with
  | error e => rfl
  | ok entries => exact List.mapM_pure.trans (congrArg Except.ok (List.map_id entries))

theorem exists_readValues_iff {check : Json → Built α}
    (hform : ∀ v, (∃ a, check v = .ok a) ↔ form v) :
    (∃ f, (operand.expectObject operator.token >>= Fields.build operator check) = .ok f) ↔
      Fields.IsFieldsOf form operand := by
  rw [← readFields_ok]
  exact exists_readFields_iff fun v => by simpa using hform v

theorem readEach_eq_ok_iff {construct : String} {values : List Json} :
    readEach construct v = .ok values ↔ v = .single Keyword.each (.array values) := by
  simp only [readEach, bind_eq_ok, Json.expectSingle_eq_ok_iff]
  constructor
  · rintro ⟨⟨key, operand⟩, rfl, h⟩
    split at h
    next hkey =>
      obtain rfl : key = Keyword.each := hkey
      obtain rfl := Json.expectArray_eq_ok_iff.1 h
      rfl
    next => exact absurd h (by simp)
  · rintro rfl
    exact ⟨(Keyword.each, .array values), rfl, if_pos rfl⟩

theorem exists_readEach_iff (construct : String) :
    (∃ values, readEach construct v = .ok values ∧ ∃ a, buildValues construct values = .ok a) ↔
      IsEach v := by
  simp only [readEach_eq_ok_iff, IsEach]
  refine exists_congr fun values => and_congr_right fun _ => ?_
  rw [buildValues]
  cases values <;> simp [NonEmpty.ofList?]

theorem exists_ofUnset_iff {fields : List String} :
    (∃ a, ofUnset fields = .ok a) ↔ fields ≠ [] ∧ ∀ s ∈ fields, ¬ Text.Blank s := by
  have hnames : (∃ names, fields.mapM (Name.build ActionOperator.unset.token) = .ok names) ↔
      ∀ s ∈ fields, ¬ Text.Blank s := by
    rw [exists_mapM_iff]
    exact forall₂_congr fun s _ => Name.exists_build_iff _
  rw [← hnames]
  constructor
  · rintro ⟨a, h⟩
    obtain ⟨names, hread, h⟩ := bind_eq_ok.1 h
    refine ⟨mt (eq_nil_iff_of_mapM hread).2 ?_, names, hread⟩
    rintro rfl
    exact absurd h (by simp [NonEmpty.ofList?])
  · rintro ⟨hne, names, hread⟩
    obtain ⟨name, rest, rfl⟩ := List.exists_cons_of_ne_nil (mt (eq_nil_iff_of_mapM hread).1 hne)
    exact ⟨.unset ⟨name, rest⟩, by rw [ofUnset, hread]; rfl⟩

theorem exists_readUnset_iff :
    (∃ a, readOperand .unset operand = .ok a) ↔ ActionOperator.unset.Accepts operand := by
  simp only [readOperand, exists_bind_eq_ok, exists_ofUnset_iff, Json.expectStrings_eq_ok_iff,
    ActionOperator.Accepts, Json.IsNonBlank, ← Json.exists_texts_iff]
  constructor
  · rintro ⟨fields, hfields, hne, hall⟩
    rw [hfields]
    exact ⟨mt List.map_eq_nil_iff.1 hne, fields, rfl, hall⟩
  · rintro ⟨hne, fields, hfields, hall⟩
    rw [hfields] at hne
    exact ⟨fields, hfields, mt List.map_eq_nil_iff.2 hne, hall⟩

/-- An operand is read if and only if its operator accepts it. -/
theorem exists_readOperand_iff {operator : ActionOperator} :
    (∃ a, readOperand operator operand = .ok a) ↔ operator.Accepts operand := by
  cases operator with
  | set =>
    have hform : ∀ v : Json, (∃ a, (.ok v : Built Json) = .ok a) ↔ True := by simp
    exact exists_bind_map_eq_ok.trans (exists_readValues_iff hform)
  | unset => exact exists_readUnset_iff
  | inc =>
    have hform : ∀ v, (∃ a, buildNumber ActionOperator.inc.token v = .ok a) ↔
        ∃ n, v = .number n := by
      intro v
      cases v <;> simp [buildNumber]
    exact exists_bind_map_eq_ok.trans (exists_readValues_iff hform)
  | min =>
    exact exists_bind_map_eq_ok.trans (exists_readValues_iff fun v => Literal.exists_build_iff _)
  | max =>
    exact exists_bind_map_eq_ok.trans (exists_readValues_iff fun v => Literal.exists_build_iff _)
  | rename =>
    refine exists_bind_map_eq_ok.trans (exists_readFields_iff fun v => ?_)
    simp only [Json.expectString_eq_ok_iff, Name.exists_build_iff]
    rfl
  | push => exact exists_bind_map_eq_ok.trans (exists_readFields_iff fun v => exists_readEach_iff _)
  | add => exact exists_bind_map_eq_ok.trans (exists_readFields_iff fun v => exists_readEach_iff _)
  | pop =>
    refine exists_bind_map_eq_ok.trans (exists_readFields_iff fun v => ?_)
    simp only [ArrayEnd.exists_build_iff]
    exact Json.exists_expectInt64_iff_isSign _
  | pull => exact exists_bind_map_eq_ok.trans (exists_readFields_iff fun v => exists_readEach_iff _)

theorem exists_readEntry_iff {e : String × Json} : (∃ a, readEntry e = .ok a) ↔
    ∃ operator : ActionOperator, e.1 = operator.token ∧ operator.Accepts e.2 := by
  simp only [← exists_readOperand_iff, readEntry]
  constructor
  · rintro ⟨a, h⟩
    split at h
    next => exact absurd h (by simp)
    next operator hoperator =>
      exact ⟨operator, ActionOperator.ofToken?_eq_some_iff.1 hoperator, a, h⟩
  · rintro ⟨operator, htoken, a, h⟩
    rw [htoken, ActionOperator.ofToken?_token]
    exact ⟨a, h⟩

theorem exists_readObject_iff : (∃ as, readObject v = .ok as) ↔ IsActionObject v := by
  simp only [readObject, exists_bind_eq_ok, Json.expectObject_eq_ok_iff, IsActionObject,
    Json.IsObjectOf, exists_mapM_iff, exists_readEntry_iff]

theorem ne_nil_iff_of_readObject (v : Json) (as : List Action) (h : readObject v = .ok as) :
    v ≠ .object [] ↔ as ≠ [] := by
  obtain ⟨entries, hentries, h⟩ := bind_eq_ok.1 h
  obtain rfl := Json.expectObject_eq_ok_iff.1 hentries
  rw [ne_eq, Json.object.injEq, ne_eq, eq_nil_iff_of_mapM h]

/-- Actions are read, and there are any, if and only if they are documents of actions. -/
theorem exists_readAll_iff_isActions : (∃ as, readAll v = .ok as ∧ as ≠ []) ↔ IsActions v := by
  have hread : (∃ ass, v.oneOrMany.mapM readObject = .ok ass) ↔
      ∀ w ∈ v.oneOrMany, IsActionObject w := by
    simp only [exists_mapM_iff, exists_readObject_iff]
  rw [IsActions, ← hread]
  simp only [readAll, map_eq_ok]
  constructor
  · rintro ⟨_, ⟨ass, hass, rfl⟩, hne⟩
    refine ⟨⟨ass, hass⟩, (exists_mem_iff_of_mapM (fun w _ => ne_nil_iff_of_readObject w) hass).2 ?_⟩
    simpa using hne
  · rintro ⟨⟨ass, hass⟩, hsome⟩
    refine ⟨_, ⟨ass, hass, rfl⟩, ?_⟩
    simpa using (exists_mem_iff_of_mapM (fun w _ => ne_nil_iff_of_readObject w) hass).1 hsome

end Action

end Fonds
