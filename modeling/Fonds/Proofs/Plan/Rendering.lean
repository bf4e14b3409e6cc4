import Fonds.Proofs.Grammar.Bounds
import Fonds.Proofs.Plan.Tests
import Fonds.Proofs.Query.WellFormed
import Fonds.Proofs.Store.Keys
import Fonds.Proofs.Store.Rendering
import Fonds.Request.Reader

/-!
What the store is sent for the predicates of a plan. Their rendered form tells all of a predicate
but how its tests are put. A name in it can be taken for an operator only if a query of the request
gave it.
-/
namespace Fonds

open Store

variable {c : Configuration} {r : Request} {plan : Plan} {p : Predicate}

/-- The bounds of a range lie on different sides, so their operators differ. -/
theorem Check.distinctBounds_toFieldTest (check : Check) : check.toFieldTest.DistinctBounds := by
  cases check with
  | range bounds =>
    have hsides : (bounds.toList.map fun b => b.operator.isLower).Nodup :=
      @Bounds.nodup_sides (some bounds)
    simp only [← BoundOperator.isLower_comparison] at hsides
    have hoperators : (bounds.toList.map fun b => b.operator.comparison).Nodup := by
      apply List.Nodup.of_map Comparison.isLower
      simpa [Function.comp_def] using hsides
    simpa [toFieldTest, FieldTest.DistinctBounds, Function.comp_def] using hoperators
  | _ => trivial

theorem Configuration.GraphTest.distinctBounds {t : String × FieldTest} (h : c.GraphTest t) :
    t.2.DistinctBounds := by
  cases h <;> trivial

theorem Request.distinctBounds_of_plan (h : r.plan c = .ok plan) (hp : p ∈ plan.predicates) :
    p.DistinctBounds := by
  intro t ht
  rcases test_of_plan h hp ht with hgraph | ht
  · exact hgraph.distinctBounds
  · obtain ⟨s, _, rfl⟩ := List.mem_map.1 ht
    exact s.2.distinctBounds_toFieldTest

namespace Store.Predicate

/-- Predicates are rendered alike if they differ at most in how their tests are put, and in no other
case; it does not matter what their fields are called. The predicates of plans are among those it
holds of. -/
theorem toJson_eq_iff :
    (∀ p q : Predicate, p.DistinctBounds → q.DistinctBounds →
      (p.toJson = q.toJson ↔ p.canonical = q.canonical)) ∧
    ∀ (c : Configuration) (r : Request) (plan : Plan), r.plan c = .ok plan →
      ∀ p ∈ plan.predicates, p.DistinctBounds := by
  refine ⟨fun p q hp hq => ?_, fun c r plan h p hp => Request.distinctBounds_of_plan h hp⟩
  exact ⟨canonical_eq_of_toJson_eq hp hq, toJson_eq_of_canonical_eq⟩

/-- The units below the fonds by their parents or, in the other form, by a list of texts; the field
of the size is called like a group. -/
theorem toJson_eq_iff_children :
    (all [test "_up" (.oneOf [.string "fonds"]),
        test "$and" (.range [(.gte, .ofNat 1)])]).DistinctBounds ∧
      (all [inIds "_up" (.literal ["fonds"]),
        test "$and" (.compare .gte (.ofNat 1))]).DistinctBounds ∧
      (all [test "_up" (.oneOf [.string "fonds"]), test "$and" (.range [(.gte, .ofNat 1)])]).toJson =
        (all [inIds "_up" (.literal ["fonds"]), test "$and" (.compare .gte (.ofNat 1))]).toJson ∧
      ∃ plan, Request.titledChildren.plan .initial = .ok plan ∧
        ∀ p ∈ plan.predicates, p.DistinctBounds := by
  have hlist : (all [test "_up" (.oneOf [.string "fonds"]),
      test "$and" (.range [(.gte, .ofNat 1)])]).DistinctBounds := by
    simp [DistinctBounds, FieldTest.DistinctBounds]
  have hset : (all [inIds "_up" (.literal ["fonds"]),
      test "$and" (.compare .gte (.ofNat 1))]).DistinctBounds := by
    simp [DistinctBounds, FieldTest.DistinctBounds]
  obtain ⟨plan, hplan⟩ : ∃ plan, Request.titledChildren.plan .initial = .ok plan := ⟨_, rfl⟩
  refine ⟨hlist, hset, (toJson_eq_iff.1 _ _ hlist hset).2 rfl, plan, hplan, ?_⟩
  exact toJson_eq_iff.2 _ _ plan hplan

end Store.Predicate

/-- Whether the store takes a key for an operator. -/
def Store.IsOperator (key : String) : Prop := key.toList.head? = some '$'

instance (key : String) : Decidable (IsOperator key) :=
  inferInstanceAs (Decidable (_ = _))

namespace Configuration

/-- The document fields that are configured, those of the graph before those of reserved names. -/
def documentFields (c : Configuration) : List String :=
  c.graph.entries.map Prod.snd ++ c.reserved.entries.map Prod.snd

/-- A name stands for itself, unless it is reserved for a document field. -/
theorem mapped_eq_or_mem (name : Name) :
    (c.reserved.get? name.text = none ∧ c.mapped name = name.text) ∨
      c.mapped name ∈ c.documentFields := by
  cases hget : c.reserved.get? name.text with
  | none => exact .inl ⟨rfl, mapped_of_free hget⟩
  | some f =>
    rw [mapped_of_reserved hget]
    obtain ⟨e, he, rfl⟩ := Option.map_eq_some_iff.1 hget
    have hmem : e ∈ c.reserved.entries := List.mem_of_find?_eq_some he
    exact .inr (List.mem_append_right _ (List.mem_map_of_mem hmem))

section Plain

variable (hc : ∀ f ∈ c.documentFields, ¬ IsOperator f)
include hc

theorem not_isOperator_ancestorsAt (levels : Nat) : ¬ IsOperator (c.ancestorsAt levels) := by
  have hparent : ¬ IsOperator c.graph.ancestorsByDistance :=
    hc _ (List.mem_append_left _ (by simp [GraphFields.entries]))
  rw [IsOperator] at hparent ⊢
  rw [ancestorsAt, subField, String.toList_append, String.toList_append, List.append_assoc]
  cases hchars : c.graph.ancestorsByDistance.toList with
  | nil => simp
  | cons first rest => simpa [hchars] using hparent

theorem GraphTest.not_isOperator {t : String × FieldTest} (h : c.GraphTest t) :
    ¬ IsOperator t.1 := by
  have hgraph : ∀ f ∈ c.graph.entries.map Prod.snd, ¬ IsOperator f :=
    fun f hf => hc f (List.mem_append_left _ hf)
  simp only [GraphFields.entries, List.map_cons, List.map_nil, List.forall_mem_cons] at hgraph
  obtain ⟨hid, hparents, hancestors, _, hmin, hmax, _⟩ := hgraph
  cases h with
  | units lists =>
    rcases lists with lists | ⟨levels, rfl⟩
    · simp only [List.mem_cons, List.not_mem_nil, or_false] at lists
      rcases lists with rfl | rfl | rfl
      · exact hid
      · exact hparents
      · exact hancestors
    · exact not_isOperator_ancestorsAt hc levels
  | depth holds =>
    rcases holds with rfl | rfl
    · exact hmin
    · exact hmax

end Plain

end Configuration

/-- Fields are compared with scalars, which have no keys. -/
theorem Check.keys_of_mem_values (check : Check) {v : Json} (hv : v ∈ check.toFieldTest.values) :
    v.keys = [] := by
  have hliterals : ∀ values : NonEmpty Literal, v ∈ values.toList.map Literal.toJson →
      v.keys = [] := by
    intro values hv
    obtain ⟨l, _, rfl⟩ := List.mem_map.1 hv
    exact l.keys_toJson
  cases check with
  | isNull =>
    obtain rfl := List.mem_singleton.1 hv
    exact Literal.null.keys_toJson
  | oneOf values => exact hliterals values hv
  | noneOf values => exact hliterals values hv
  | compare comparison value =>
    obtain rfl := List.mem_singleton.1 hv
    exact value.keys_toJson
  | range bounds =>
    obtain ⟨e, he, rfl⟩ := List.mem_map.1 hv
    obtain ⟨b, _, rfl⟩ := List.mem_map.1 he
    exact b.value.keys_toJson
  | _ => exact absurd hv List.not_mem_nil

theorem Configuration.GraphTest.keys_of_mem_values {t : String × FieldTest} (h : c.GraphTest t)
    {v : Json} (hv : v ∈ t.2.values) : v.keys = [] := by
  cases h with
  | units lists => exact absurd hv List.not_mem_nil
  | depth holds =>
    obtain rfl := List.mem_singleton.1 hv
    exact Json.keys_ofInt

namespace Request

/-- Every key in a rendered predicate of a plan is one of the printer's or a field. -/
theorem key_of_plan (h : r.plan c = .ok plan) (hp : p ∈ plan.predicates) {k : String}
    (hk : k ∈ p.toJson.keys) : k ∈ operatorKeys ∨ k ∈ p.fields := by
  refine (p.keySource_of_mem_keys k hk).imp_right ?_
  rintro ⟨t, ht, rfl | ⟨v, hv, hkv⟩⟩
  · exact List.mem_map_of_mem ht
  · have hnil : v.keys = [] := by
      rcases test_of_plan h hp ht with hgraph | ht
      · exact hgraph.keys_of_mem_values hv
      · obtain ⟨s, _, rfl⟩ := List.mem_map.1 ht
        exact s.2.keys_of_mem_values hv
    exact absurd (hnil ▸ hkv) List.not_mem_nil

/-- A field like an operator was named by a query and is not reserved. -/
theorem exists_test_of_isOperator (hc : ∀ f ∈ c.documentFields, ¬ IsOperator f)
    (h : r.plan c = .ok plan) (hp : p ∈ plan.predicates) {f : String} (hf : f ∈ p.fields)
    (hoperator : IsOperator f) :
    ∃ t ∈ r.tests, t.1.text = f ∧ c.reserved.get? t.1.text = none := by
  obtain ⟨t, ht, rfl⟩ := List.mem_map.1 hf
  rcases test_of_plan h hp ht with hgraph | ht
  · exact absurd hoperator (hgraph.not_isOperator hc)
  · obtain ⟨s, hs, rfl⟩ := List.mem_map.1 ht
    rcases c.mapped_eq_or_mem s.1 with ⟨hfree, hname⟩ | hmem
    · exact ⟨s, hs, hname.symm, hfree⟩
    · exact absurd hoperator (hc _ hmem)

/-- Where no configured field is called like an operator, the fields of a plan that are called so
are those that its request names so in a test. Where it names none, every key like an operator is
one that the printer writes. -/
theorem isOperator_field_iff (hc : ∀ f ∈ c.documentFields, ¬ IsOperator f)
    (h : r.plan c = .ok plan) :
    (∀ f, IsOperator f → ((∃ p ∈ plan.predicates, f ∈ p.fields) ↔
      ∃ t ∈ r.tests, t.1.text = f ∧ c.reserved.get? t.1.text = none)) ∧
    ((∀ t ∈ r.tests, ¬ IsOperator t.1.text) → ∀ p ∈ plan.predicates,
      (∀ f ∈ p.fields, ¬ IsOperator f) ∧
      ∀ k ∈ p.toJson.keys, IsOperator k → k ∈ operatorKeys ∧ k ∉ p.fields) := by
  constructor
  · intro f hoperator
    constructor
    · rintro ⟨p, hp, hf⟩
      exact exists_test_of_isOperator hc h hp hf hoperator
    · rintro ⟨t, ht, rfl, hfree⟩
      obtain ⟨p, hp, htest⟩ := exists_predicate_of_test h ht
      refine ⟨p, hp, List.mem_map.2 ⟨_, htest, ?_⟩⟩
      rw [Configuration.storeTest, Configuration.mapped_of_free hfree]
  · intro hnames p hp
    have hfields : ∀ f ∈ p.fields, ¬ IsOperator f := by
      intro f hf hoperator
      obtain ⟨t, ht, rfl, _⟩ := exists_test_of_isOperator hc h hp hf hoperator
      exact hnames t ht hoperator
    refine ⟨hfields, fun k hk hoperator => ?_⟩
    have hnot : k ∉ p.fields := fun hf => hfields k hf hoperator
    exact ⟨(key_of_plan h hp hk).resolve_right hnot, hnot⟩

/-- The titles of the children are sought under their own name. -/
theorem isOperator_field_iff_titledChildren :
    (∀ f ∈ Configuration.initial.documentFields, ¬ IsOperator f) ∧
      (∀ t ∈ titledChildren.tests, ¬ IsOperator t.1.text) ∧
      ∃ plan, titledChildren.plan .initial = .ok plan ∧
        ∀ p ∈ plan.predicates, ∀ f ∈ p.fields, ¬ IsOperator f := by
  have hc : ∀ f ∈ Configuration.initial.documentFields, ¬ IsOperator f := by decide
  have hnames : ∀ t ∈ titledChildren.tests, ¬ IsOperator t.1.text := by decide
  obtain ⟨plan, hplan⟩ : ∃ plan, titledChildren.plan .initial = .ok plan := ⟨_, rfl⟩
  exact ⟨hc, hnames, plan, hplan, fun p hp => ((isOperator_field_iff hc hplan).2 hnames p hp).1⟩

/-- Asks for the units with a certain term under a name that the store takes for an operator. -/
def whereTerm : Request where
  core := {
    roots := .empty
    steps := {
      queries := [.condition (.test ⟨"$where", by decide, by decide⟩ (.term "sleep(1000)") none)]
      path_first := Steps.empty.path_first }
    filter := {} }
  payload := .select {} .empty

/-- The name is accepted and becomes a key of the predicate that the store is sent. -/
theorem whereTerm_isOperator_field :
    read .select
        (.single "$query" (.single "$term" (.single "$where" (.string "sleep(1000)")))) =
      .ok whereTerm ∧
    (∀ f ∈ Configuration.initial.documentFields, ¬ IsOperator f) ∧
    ∃ plan, whereTerm.plan .initial = .ok plan ∧ ∃ p ∈ plan.predicates,
      "$where" ∈ p.fields ∧ IsOperator "$where" ∧ "$where" ∉ operatorKeys ∧
      p.toJson = .single "$where" (.string "sleep(1000)") := by
  obtain ⟨plan, hplan⟩ : ∃ plan, whereTerm.plan .initial = .ok plan := ⟨_, rfl⟩
  have hmem := predicate_mem_predicates hplan (List.mem_append_left _ List.mem_cons_self)
  exact ⟨rfl, by decide, plan, hplan, _, hmem, by decide, by decide, by decide, rfl⟩

end Request

end Fonds
