import Fonds.Reported
import Mathlib.Data.List.Forall2
import Mathlib.Data.List.Nodup
import Mathlib.Data.List.Perm.Basic

/-! How a computation of several parts comes to a result: every part gives one. -/
namespace Fonds

variable {ε α β γ κ σ : Type}

@[simp] theorem ok_bind (a : α) (f : α → Except ε β) : (Except.ok a >>= f) = f a := rfl

@[simp] theorem error_bind (e : ε) (f : α → Except ε β) : (Except.error e >>= f) = .error e := rfl

theorem bind_eq_ok {x : Except ε α} {f : α → Except ε β} {b : β} :
    (x >>= f) = .ok b ↔ ∃ a, x = .ok a ∧ f a = .ok b := by
  cases x <;> simp

@[simp] theorem map_ok (f : α → β) (a : α) : (f <$> (Except.ok a : Except ε α)) = .ok (f a) := rfl

@[simp] theorem map_error (f : α → β) (e : ε) :
    (f <$> (Except.error e : Except ε α)) = .error e := rfl

theorem map_eq_ok {x : Except ε α} {f : α → β} {b : β} :
    (f <$> x) = .ok b ↔ ∃ a, x = .ok a ∧ f a = b := by
  cases x <;> simp

/-- Parts computed one after the other succeed if each gives something the next one takes. -/
theorem exists_bind_eq_ok {x : Except ε α} {f : α → Except ε β} :
    (∃ b, (x >>= f) = .ok b) ↔ ∃ a, x = .ok a ∧ ∃ b, f a = .ok b := by
  cases x <;> simp

theorem exists_map_eq_ok {x : Except ε α} {f : α → β} :
    (∃ b, (f <$> x) = .ok b) ↔ ∃ a, x = .ok a := by
  cases x <;> simp

theorem exists_bind_map_eq_ok {x : Except ε α} {f : α → Except ε β} {g : β → γ} :
    (∃ c, (x >>= fun a => g <$> f a) = .ok c) ↔ ∃ b, (x >>= f) = .ok b := by
  simp only [exists_bind_eq_ok, exists_map_eq_ok]

/-- A last part that only puts the results together cannot fail. -/
theorem exists_bind_ok_eq_ok {x : Except ε α} {f : α → β} :
    (∃ b, (x >>= fun a => .ok (f a)) = .ok b) ↔ ∃ a, x = .ok a := by
  cases x <;> simp

section Lists

variable {l m : List α}

theorem mapM_cons_eq_ok {f : α → Except ε β} {a : α} {b : β} {bs : List β} :
    (a :: l).mapM f = .ok (b :: bs) ↔ f a = .ok b ∧ l.mapM f = .ok bs := by
  rw [List.mapM_cons]
  cases f a with
  | error e => simp
  | ok b' => cases l.mapM f <;> simp [Pure.pure, Except.pure]

theorem mapM_cons_ne_nil {f : α → Except ε β} {a : α} : (a :: l).mapM f ≠ .ok [] := by
  rw [List.mapM_cons]
  cases f a with
  | error e => simp
  | ok b => cases l.mapM f <;> simp [Pure.pure, Except.pure]

/-- Where each element can be read from one text only, so can a list of them. -/
theorem mapM_eq_ok_iff {read : α → Except ε β} {write : β → α}
    (h : ∀ a b, read a = .ok b ↔ a = write b) {bs : List β} :
    l.mapM read = .ok bs ↔ l = bs.map write := by
  induction l generalizing bs with
  | nil => cases bs <;> simp [Pure.pure, Except.pure]
  | cons a l ih =>
    cases bs with
    | nil => simpa using mapM_cons_ne_nil
    | cons b bs => simp only [mapM_cons_eq_ok, h, ih, List.map_cons, List.cons.injEq]

/-- A list comes to the same if it is changed within what each element comes to. -/
theorem mapM_eq_ok_of_forall₂ {f : α → Except ε β} {R : α → α → Prop} (hall : List.Forall₂ R l m)
    (hf : ∀ a ∈ l, ∀ a', R a a' → ∀ b, f a = .ok b → f a' = .ok b) {bs : List β}
    (h : l.mapM f = .ok bs) : m.mapM f = .ok bs := by
  induction hall generalizing bs with
  | nil => exact h
  | @cons a a' l m ha hrest ih =>
    cases bs with
    | nil => exact absurd h mapM_cons_ne_nil
    | cons b bs =>
      obtain ⟨hb, hbs⟩ := mapM_cons_eq_ok.1 h
      have htail : ∀ a ∈ l, ∀ a', R a a' → ∀ b, f a = .ok b → f a' = .ok b :=
        fun a ha => hf a (List.mem_cons_of_mem _ ha)
      exact mapM_cons_eq_ok.2 ⟨hf a List.mem_cons_self a' ha b hb, ih htail hbs⟩

/-- A list is computed if each of its elements is. -/
theorem exists_mapM_eq_ok {f : α → Except ε β} (g : γ → β) :
    (∃ cs : List γ, l.mapM f = .ok (cs.map g)) ↔ ∀ a ∈ l, ∃ c, f a = .ok (g c) := by
  induction l with
  | nil => exact ⟨fun _ => by simp, fun _ => ⟨[], rfl⟩⟩
  | cons a l ih =>
    rw [List.forall_mem_cons, ← ih]
    constructor
    · rintro ⟨cs, hcs⟩
      cases cs with
      | nil => exact absurd hcs mapM_cons_ne_nil
      | cons c cs =>
        obtain ⟨hc, hrest⟩ := mapM_cons_eq_ok.1 hcs
        exact ⟨⟨c, hc⟩, cs, hrest⟩
    · rintro ⟨⟨c, hc⟩, cs, hcs⟩
      exact ⟨c :: cs, mapM_cons_eq_ok.2 ⟨hc, hcs⟩⟩

theorem mapM_tail {f : α → Except ε β} {bs : List β} (h : l.mapM f = .ok bs) :
    l.tail.mapM f = .ok bs.tail := by
  cases l with
  | nil =>
    obtain rfl : [] = bs := Except.ok.inj h
    rfl
  | cons a l =>
    cases bs with
    | nil => exact absurd h mapM_cons_ne_nil
    | cons b bs => exact (mapM_cons_eq_ok.1 h).2

theorem exists_mapM_iff {f : α → Except ε β} :
    (∃ bs, l.mapM f = .ok bs) ↔ ∀ a ∈ l, ∃ b, f a = .ok b := by
  simpa using exists_mapM_eq_ok id

theorem eq_nil_iff_of_mapM {f : α → Except ε β} {bs : List β} (h : l.mapM f = .ok bs) :
    bs = [] ↔ l = [] := by
  cases l with
  | nil => exact ⟨fun _ => rfl, fun _ => (Except.ok.inj h).symm⟩
  | cons a l =>
    refine ⟨?_, fun hnil => absurd hnil (List.cons_ne_nil a l)⟩
    rintro rfl
    exact absurd h mapM_cons_ne_nil

theorem foldlM_cons_eq_ok {step : σ → α → Except ε σ} {s t : σ} {a : α} :
    (a :: l).foldlM step s = .ok t ↔ ∃ s', step s a = .ok s' ∧ l.foldlM step s' = .ok t := by
  rw [List.foldlM_cons, bind_eq_ok]

/-- What every step keeps, a fold keeps. -/
theorem foldlM_invariant {step : σ → α → Except ε σ} (P : σ → Prop)
    (hstep : ∀ s, ∀ a ∈ l, ∀ t, P s → step s a = .ok t → P t) {s t : σ} (hs : P s)
    (h : l.foldlM step s = .ok t) : P t := by
  induction l generalizing s with
  | nil =>
    obtain rfl := Except.ok.inj h
    exact hs
  | cons a l ih =>
    obtain ⟨s', hs', hrest⟩ := foldlM_cons_eq_ok.1 h
    have htail : ∀ s, ∀ b ∈ l, ∀ t, P s → step s b = .ok t → P t :=
      fun s b hb => hstep s b (List.mem_cons_of_mem a hb)
    exact ih htail (hstep s a List.mem_cons_self s' hs hs') hrest

/-- A fold comes to the same in any order, if so do two of its steps that may be next to each
other. -/
theorem foldlM_eq_ok_of_perm {step : σ → α → Except ε σ} (Apart : α → α → Prop)
    (hsymm : ∀ a b, Apart a b → Apart b a)
    (hswap : ∀ a b s s' t, Apart a b → step s a = .ok s' → step s' b = .ok t →
      ∃ s'', step s b = .ok s'' ∧ step s'' a = .ok t)
    (hperm : l.Perm m) (hl : l.Pairwise Apart) {s t : σ} (h : l.foldlM step s = .ok t) :
    m.foldlM step s = .ok t := by
  induction hperm generalizing s with
  | nil => exact h
  | cons a _ ih =>
    obtain ⟨s', hs', hrest⟩ := foldlM_cons_eq_ok.1 h
    exact foldlM_cons_eq_ok.2 ⟨s', hs', ih hl.of_cons hrest⟩
  | swap a b rest =>
    obtain ⟨s', hb, hrest⟩ := foldlM_cons_eq_ok.1 h
    obtain ⟨s'', ha, hrest⟩ := foldlM_cons_eq_ok.1 hrest
    have hapart : Apart b a := List.rel_of_pairwise_cons hl List.mem_cons_self
    obtain ⟨r, ha', hb'⟩ := hswap b a s s' s'' hapart hb ha
    exact foldlM_cons_eq_ok.2 ⟨r, ha', foldlM_cons_eq_ok.2 ⟨s'', hb', hrest⟩⟩
  | trans hlm _ ihlm ihmn => exact ihmn (hlm.pairwise hl @hsymm) (ihlm hl h)

/-- What can be told of the results can be told of the elements. -/
theorem map_eq_of_mapM {read : α → Except ε β} {f : α → γ} {g : β → γ}
    (h : ∀ a ∈ l, ∀ b, read a = .ok b → f a = g b) {bs : List β} (hread : l.mapM read = .ok bs) :
    l.map f = bs.map g := by
  induction l generalizing bs with
  | nil =>
    obtain rfl := Except.ok.inj hread
    rfl
  | cons a l ih =>
    cases bs with
    | nil => exact absurd hread mapM_cons_ne_nil
    | cons b bs =>
      obtain ⟨hb, hrest⟩ := mapM_cons_eq_ok.1 hread
      have htail : ∀ a ∈ l, ∀ b, read a = .ok b → f a = g b :=
        fun a ha => h a (List.mem_cons_of_mem _ ha)
      rw [List.map_cons, List.map_cons, h a List.mem_cons_self b hb, ih htail hrest]

theorem mapM_append_eq_ok {f : α → Except ε β} {bs cs : List β} (hl : l.mapM f = .ok bs)
    (hm : m.mapM f = .ok cs) : (l ++ m).mapM f = .ok (bs ++ cs) := by
  rw [List.mapM_append, hl, ok_bind, hm, ok_bind]
  rfl

/-- Where the parts of each element come to the parts of its result, so do the parts of all. -/
theorem mapM_flatMap_eq_ok {δ : Type} {read : α → Except ε β} {f : γ → Except ε δ}
    {parts : α → List γ} {results : β → List δ}
    (h : ∀ a ∈ l, ∀ b, read a = .ok b → (parts a).mapM f = .ok (results b)) {bs : List β}
    (hread : l.mapM read = .ok bs) : (l.flatMap parts).mapM f = .ok (bs.flatMap results) := by
  induction l generalizing bs with
  | nil =>
    obtain rfl := Except.ok.inj hread
    rfl
  | cons a l ih =>
    cases bs with
    | nil => exact absurd hread mapM_cons_ne_nil
    | cons b bs =>
      obtain ⟨hb, hrest⟩ := mapM_cons_eq_ok.1 hread
      rw [List.flatMap_cons, List.flatMap_cons]
      refine mapM_append_eq_ok (h a List.mem_cons_self b hb) (ih (fun a ha => ?_) hrest)
      exact h a (List.mem_cons_of_mem _ ha)

/-- What is said of some result is said of some element. -/
theorem exists_mem_iff_of_mapM {f : α → Except ε β} {P : α → Prop} {Q : β → Prop}
    (h : ∀ a ∈ l, ∀ b, f a = .ok b → (P a ↔ Q b)) {bs : List β} (hread : l.mapM f = .ok bs) :
    (∃ a ∈ l, P a) ↔ ∃ b ∈ bs, Q b := by
  induction l generalizing bs with
  | nil =>
    obtain rfl := Except.ok.inj hread
    simp
  | cons a l ih =>
    cases bs with
    | nil => exact absurd hread mapM_cons_ne_nil
    | cons b bs =>
      obtain ⟨hb, hrest⟩ := mapM_cons_eq_ok.1 hread
      have htail : ∀ a ∈ l, ∀ b, f a = .ok b → (P a ↔ Q b) :=
        fun a' ha' => h a' (List.mem_cons_of_mem a ha')
      rw [List.exists_mem_cons_iff, List.exists_mem_cons_iff, h a List.mem_cons_self b hb,
        ih htail hrest]

/-- Two passes over a list are one pass of both. -/
theorem exists_mapM_mapM_eq_ok {f : α → Except ε β} {g : β → Except ε γ} {cs : List γ} :
    (∃ bs, l.mapM f = .ok bs ∧ bs.mapM g = .ok cs) ↔ l.mapM (fun a => f a >>= g) = .ok cs := by
  induction l generalizing cs with
  | nil =>
    constructor
    · rintro ⟨bs, hbs, hcs⟩
      obtain rfl : [] = bs := Except.ok.inj hbs
      exact hcs
    · exact fun hcs => ⟨[], rfl, hcs⟩
  | cons a l ih =>
    cases cs with
    | nil =>
      refine ⟨?_, fun h => absurd h mapM_cons_ne_nil⟩
      rintro ⟨bs, hbs, hcs⟩
      cases bs with
      | nil => exact absurd hbs mapM_cons_ne_nil
      | cons b bs => exact absurd hcs mapM_cons_ne_nil
    | cons c cs =>
      rw [mapM_cons_eq_ok, bind_eq_ok, ← ih]
      constructor
      · rintro ⟨bs, hbs, hcs⟩
        cases bs with
        | nil => exact absurd hbs mapM_cons_ne_nil
        | cons b bs =>
          obtain ⟨hb, hbs⟩ := mapM_cons_eq_ok.1 hbs
          obtain ⟨hc, hcs⟩ := mapM_cons_eq_ok.1 hcs
          exact ⟨⟨b, hb, hc⟩, bs, hbs, hcs⟩
      · rintro ⟨⟨b, hb, hc⟩, bs, hbs, hcs⟩
        exact ⟨b :: bs, mapM_cons_eq_ok.2 ⟨hb, hbs⟩, mapM_cons_eq_ok.2 ⟨hc, hcs⟩⟩

/-- Results that have to differ in their keys, where the keys can be told from the elements. -/
theorem exists_mapM_nodup_iff {f : α → Except ε β} {key : β → κ} {name : α → γ} {write : κ → γ}
    (hwrite : Function.Injective write) (hname : ∀ a b, f a = .ok b → name a = write (key b)) :
    (∃ bs, l.mapM f = .ok bs ∧ (bs.map key).Nodup) ↔
      (∀ a ∈ l, ∃ b, f a = .ok b) ∧ (l.map name).Nodup := by
  have hnodup : ∀ bs, l.mapM f = .ok bs → ((bs.map key).Nodup ↔ (l.map name).Nodup) := by
    intro bs hbs
    have hnames : l.map name = bs.map fun b => write (key b) :=
      map_eq_of_mapM (fun a _ => hname a) hbs
    rw [hnames, ← List.nodup_map_iff hwrite, List.map_map]
    rfl
  rw [← exists_mapM_iff]
  constructor
  · rintro ⟨bs, hbs, hkeys⟩
    exact ⟨⟨bs, hbs⟩, (hnodup bs hbs).1 hkeys⟩
  · rintro ⟨⟨bs, hbs⟩, hnames⟩
    exact ⟨bs, hbs, (hnodup bs hbs).2 hnames⟩

/-- A fold whose states are lists of what was read, some lists excepted: no state follows one that
is excepted. -/
theorem foldlM_eq_ok_iff_mapM {step : σ → α → Except ε σ} {read : α → Except ε β}
    (items : σ → List β) (hitems : Function.Injective items)
    (hcut : ∀ t before after, items t = before ++ after → ∃ s, items s = before)
    (hstep : ∀ s a t, step s a = .ok t ↔ ∃ b, read a = .ok b ∧ items t = items s ++ [b]) {s t : σ} :
    l.foldlM step s = .ok t ↔ ∃ bs, l.mapM read = .ok bs ∧ items t = items s ++ bs := by
  induction l generalizing s with
  | nil =>
    constructor
    · intro h
      obtain rfl : s = t := Except.ok.inj h
      exact ⟨[], rfl, (List.append_nil _).symm⟩
    · rintro ⟨bs, hbs, ht⟩
      obtain rfl : [] = bs := Except.ok.inj hbs
      rw [List.append_nil] at ht
      exact congrArg Except.ok (hitems ht.symm)
  | cons a l ih =>
    rw [foldlM_cons_eq_ok]
    constructor
    · rintro ⟨s', hs', hrest⟩
      obtain ⟨b, hb, hnext⟩ := (hstep s a s').1 hs'
      obtain ⟨bs, hbs, ht⟩ := ih.1 hrest
      refine ⟨b :: bs, mapM_cons_eq_ok.2 ⟨hb, hbs⟩, ?_⟩
      rw [ht, hnext, List.append_assoc, List.singleton_append]
    · rintro ⟨bs, hbs, ht⟩
      cases bs with
      | nil => exact absurd hbs mapM_cons_ne_nil
      | cons b bs =>
        obtain ⟨hb, hbs⟩ := mapM_cons_eq_ok.1 hbs
        rw [List.append_cons] at ht
        obtain ⟨s', hs'⟩ := hcut t _ _ ht
        exact ⟨s', (hstep s a s').2 ⟨b, hb, hs'⟩, ih.2 ⟨bs, hbs, hs' ▸ ht⟩⟩

/-- A fold whose steps succeed whatever came before. -/
theorem exists_foldlM_iff {step : σ → α → Except ε σ} {IsElement : α → Prop}
    (hstep : ∀ s, ∀ a ∈ l, (∃ t, step s a = .ok t) ↔ IsElement a) (s : σ) :
    (∃ t, l.foldlM step s = .ok t) ↔ ∀ a ∈ l, IsElement a := by
  induction l generalizing s with
  | nil => exact ⟨fun _ => by simp, fun _ => ⟨s, rfl⟩⟩
  | cons a l ih =>
    have htail : ∀ s, ∀ b ∈ l, (∃ t, step s b = .ok t) ↔ IsElement b :=
      fun s b hb => hstep s b (List.mem_cons_of_mem a hb)
    simp only [foldlM_cons_eq_ok, List.forall_mem_cons, ← hstep s a List.mem_cons_self]
    constructor
    · rintro ⟨t, s', hs', ht⟩
      exact ⟨⟨s', hs'⟩, (ih htail s').1 ⟨t, ht⟩⟩
    · rintro ⟨⟨s', hs'⟩, hall⟩
      obtain ⟨t, ht⟩ := (ih htail s').2 hall
      exact ⟨t, s', hs', ht⟩

end Lists

namespace Reported

@[simp] theorem outcome_pure (a : α) : (Pure.pure a : Reported ε α).outcome = .ok a := rfl

@[simp] theorem outcome_ofExcept (x : Except ε α) : (ofExcept x).outcome = x := rfl

@[simp] theorem outcome_report (e : Event) : (report e : Reported ε Unit).outcome = .ok () := rfl

/-- Events have no say in what a computation comes to. -/
@[simp] theorem outcome_bind (x : Reported ε α) (f : α → Reported ε β) :
    (x >>= f).outcome = x.outcome >>= fun a => (f a).outcome := by
  obtain ⟨events, outcome⟩ := x
  cases outcome <;> rfl

end Reported

end Fonds
