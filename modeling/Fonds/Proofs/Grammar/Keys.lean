import Fonds.Proofs.Grammar.Operands

/-!
The keys of a query object. They are read in order, yet the order has no say in the query: what each
key shows is independent of the others. So the operator may be taken to come first, and one
qualifier at most can follow.
-/
namespace Fonds.Query

variable {entries entries' rest : List (String × Json)} {e e' : String × Json}
  {keys keys' keys'' : Keys} {operator : Operator} {operand : Json} {body q : Query}

/-- What one more entry shows. -/
inductive Shows (keys : Keys) : String × Json → Keys → Prop
  | depth (levels : Int64) :
      Shows keys (Keyword.depth, .ofInt levels.toInt) { keys with depth := some levels.toInt }
  | exactDepth (level : Int64) :
      Shows keys (Keyword.exactDepth, .ofInt level.toInt)
        { keys with exactDepth := some level.toInt }
  | operator (operator : Operator) (operand : Json) (first : keys.body = none) :
      Shows keys (operator.token, operand)
        { keys with body := some (readBody operator operand) }

/-- Reads one entry. -/
def readKey (keys : Keys) (entry : String × Json) : Built Keys := readKeys keys [entry]

theorem readKeys_eq_foldlM (keys : Keys) (entries : List (String × Json)) :
    readKeys keys entries = entries.foldlM readKey keys := by
  induction entries generalizing keys with
  | nil => rw [readKeys]; rfl
  | cons e entries ih =>
    obtain ⟨key, operand⟩ := e
    rw [List.foldlM_cons, readKey]
    simp only [readKeys]
    split
    · cases operand.expectInt64 key <;> simp [ih]
    · split
      · cases operand.expectInt64 key <;> simp [ih]
      · split
        · rfl
        · split
          · rfl
          · simp [ih]

theorem token_ne {keyword : String} (h : Operator.ofToken? keyword = none) (operator : Operator) :
    operator.token ≠ keyword := by
  rintro rfl
  rw [Operator.ofToken?_token] at h
  exact Option.some_ne_none operator h

/-- An entry is read if and only if it shows something. -/
theorem readKey_eq_ok_iff : readKey keys e = .ok keys' ↔ Shows keys e keys' := by
  obtain ⟨key, operand⟩ := e
  constructor
  · intro h
    simp only [readKey, readKeys] at h
    split at h
    next hkey =>
      subst hkey
      obtain ⟨levels, hlevels, hkeys⟩ := bind_eq_ok.1 h
      obtain rfl := Json.expectInt64_eq_ok_iff.1 hlevels
      obtain rfl := Except.ok.inj hkeys
      exact .depth levels
    next =>
      split at h
      next hkey =>
        subst hkey
        obtain ⟨level, hlevel, hkeys⟩ := bind_eq_ok.1 h
        obtain rfl := Json.expectInt64_eq_ok_iff.1 hlevel
        obtain rfl := Except.ok.inj hkeys
        exact .exactDepth level
      next =>
        split at h
        next => exact absurd h (by simp)
        next operator hoperator =>
          obtain rfl := Operator.eq_token_of_ofToken? hoperator
          split at h
          next => exact absurd h (by simp)
          next hbody =>
            obtain rfl := Except.ok.inj h
            have hfirst : keys.body = none := by simpa using hbody
            have hshows := Shows.operator operator operand hfirst
            cases operator <;> exact hshows
  · intro h
    cases h with
    | depth levels =>
      have hread : Json.expectInt64 Keyword.depth (.ofInt levels.toInt) = .ok levels :=
        Json.expectInt64_eq_ok_iff.2 rfl
      simp [readKey, readKeys, hread]
    | exactDepth level =>
      have hread : Json.expectInt64 Keyword.exactDepth (.ofInt level.toInt) = .ok level :=
        Json.expectInt64_eq_ok_iff.2 rfl
      have hne : Keyword.exactDepth ≠ Keyword.depth := by decide
      simp [readKey, readKeys, hread, hne]
    | operator operator operand first =>
      have hdepth : operator.token ≠ Keyword.depth := token_ne rfl operator
      have hexact : operator.token ≠ Keyword.exactDepth := token_ne rfl operator
      rw [readKey, readKeys, if_neg hdepth, if_neg hexact, Operator.ofToken?_token, first]
      cases operator <;> rfl

/-- Of two entries with different keys either may be read first. For two operators there is nothing
to show: neither is read after the other. -/
theorem Shows.swap (h : Shows keys e keys') (h' : Shows keys' e' keys'') (hne : e.1 ≠ e'.1) :
    ∃ keys₁, Shows keys e' keys₁ ∧ Shows keys₁ e keys'' := by
  cases h with
  | depth levels =>
    cases h' with
    | depth => exact absurd rfl hne
    | exactDepth level => exact ⟨_, .exactDepth level, .depth levels⟩
    | operator op operand first => exact ⟨_, .operator op operand first, .depth levels⟩
  | exactDepth level =>
    cases h' with
    | depth levels => exact ⟨_, .depth levels, .exactDepth level⟩
    | exactDepth => exact absurd rfl hne
    | operator op operand first => exact ⟨_, .operator op operand first, .exactDepth level⟩
  | operator op operand first =>
    cases h' with
    | depth levels => exact ⟨_, .depth levels, .operator op operand first⟩
    | exactDepth level => exact ⟨_, .exactDepth level, .operator op operand first⟩
    | operator _ _ hnone => exact absurd hnone (by simp)

/-- The entries of an object may come in any order. -/
theorem readKeys_eq_ok_of_perm (hperm : entries.Perm entries')
    (hentries : (Entries.keys entries).Nodup) (h : readKeys keys entries = .ok keys') :
    readKeys keys entries' = .ok keys' := by
  rw [readKeys_eq_foldlM] at h ⊢
  refine Entries.foldlM_eq_ok_of_perm (fun e e' s s' t hne hs hs' => ?_) hperm hentries h
  simp only [readKey_eq_ok_iff] at hs hs' ⊢
  exact hs.swap hs' hne

/-- A query with the qualifier it is given. A path takes none. -/
def qualified? : Query → Option Depth → Option Query
  | q, none => some q
  | .condition c, some depth => some (.condition (c.withQualifier depth))
  | .path _, some _ => none

theorem depth_of_qualified? {depth : Depth} (h : body.qualified? (some depth) = some q) :
    q.depth = some depth := by
  match body with
  | .path _ => exact absurd h (by simp [qualified?])
  | .condition (.test _ _ _) =>
    obtain rfl := Option.some.inj h
    rfl
  | .condition (.group _ _ _ _) =>
    obtain rfl := Option.some.inj h
    rfl

/-- A query is qualified once. -/
theorem qualify_eq_ok_iff {keyword : String} {depth : Depth} :
    qualify body keyword depth = .ok q ↔
      body.depth = none ∧ body.qualified? (some depth) = some q := by
  cases body with
  | path ids => simp [qualify, qualified?]
  | condition c =>
    rw [qualify, qualified?, Query.depth]
    cases c.qualifier with
    | none => simp
    | some known => cases known <;> simp

theorem withDepth_eq_ok_iff {levels : Int} : withDepth body levels = .ok q ↔
    ∃ bounded : levels.natAbs ≤ maxDepth,
      body.depth = none ∧ body.qualified? (some (.relative levels bounded)) = some q := by
  rw [withDepth]
  split
  next bounded => simp [qualify_eq_ok_iff, bounded]
  next hout => simp [hout]

theorem withExactDepth_eq_ok_iff {level : Int} : withExactDepth body level = .ok q ↔
    ∃ (n : Nat) (bounded : n ≤ maxDepth), level = n ∧
      body.depth = none ∧ body.qualified? (some (.exact n bounded)) = some q := by
  rw [withExactDepth]
  split
  next h =>
    obtain ⟨n, rfl⟩ := Int.eq_ofNat_of_zero_le h.1
    have hn : n ≤ maxDepth := h.2
    rw [qualify_eq_ok_iff]
    constructor
    · exact fun hq => ⟨n, hn, rfl, hq⟩
    · rintro ⟨m, _, hm, hq⟩
      obtain rfl := Int.ofNat.inj hm
      exact hq
  next hout =>
    constructor
    · intro h
      exact absurd h (by simp)
    · rintro ⟨n, bounded, rfl, -⟩
      exact absurd ⟨by omega, bounded⟩ hout

/-- A query does not take two qualifiers. -/
theorem ofKeys_ne_ok_of_both (hboth : keys.depth ≠ none ∧ keys.exactDepth ≠ none) :
    ofKeys keys ≠ .ok q := by
  obtain ⟨levels, hlevels⟩ := Option.ne_none_iff_exists'.1 hboth.1
  obtain ⟨level, hlevel⟩ := Option.ne_none_iff_exists'.1 hboth.2
  intro h
  rw [ofKeys] at h
  split at h
  next => exact absurd h (by simp)
  next =>
    obtain ⟨body, -, h⟩ := bind_eq_ok.1 h
    rw [hlevels, hlevel, Option.elim_some, bind_eq_ok] at h
    obtain ⟨q', hq', h⟩ := h
    obtain ⟨_, _, hdepth⟩ := withDepth_eq_ok_iff.1 hq'
    obtain ⟨_, _, _, hnone, _⟩ := withExactDepth_eq_ok_iff.1 h
    rw [depth_of_qualified? hdepth] at hnone
    exact Option.some_ne_none _ hnone

/-- Both qualifiers stay once they are shown. -/
theorem Shows.both (h : Shows keys e keys') (hboth : keys.depth ≠ none ∧ keys.exactDepth ≠ none) :
    keys'.depth ≠ none ∧ keys'.exactDepth ≠ none := by
  cases h with
  | depth => exact ⟨by simp, hboth.2⟩
  | exactDepth => exact ⟨hboth.1, by simp⟩
  | operator => exact hboth

/-- Two entries that follow the operator show both qualifiers. -/
theorem Shows.both_of_ne (h : Shows keys e keys') (h' : Shows keys' e' keys'') (hne : e.1 ≠ e'.1)
    (hbody : keys.body ≠ none) : keys''.depth ≠ none ∧ keys''.exactDepth ≠ none := by
  cases h with
  | depth =>
    cases h' with
    | depth => exact absurd rfl hne
    | exactDepth => exact ⟨by simp, by simp⟩
    | operator _ _ first => exact absurd first hbody
  | exactDepth =>
    cases h' with
    | depth => exact ⟨by simp, by simp⟩
    | exactDepth => exact absurd rfl hne
    | operator _ _ first => exact absurd first hbody
  | operator _ _ first => exact absurd first hbody

/-- What may follow the operator and its operand: one qualifier, or nothing. -/
theorem readKeys_body_eq_ok_iff {built : Built Query} (hbuilt : ∀ b, built = .ok b → b.depth = none)
    (hrest : (Entries.keys rest).Nodup) :
    (readKeys { body := some built } rest >>= ofKeys) = .ok q ↔ ∃ b qualifier, built = .ok b ∧
      rest = (qualifier.map Depth.entry).toList ∧ b.qualified? qualifier = some q := by
  constructor
  · intro h
    obtain ⟨keys, hkeys, hq⟩ := bind_eq_ok.1 h
    rw [readKeys_eq_foldlM] at hkeys
    match rest, hrest, hkeys with
    | [], _, hkeys =>
      obtain rfl := Except.ok.inj hkeys
      obtain ⟨b, hb, hq⟩ := bind_eq_ok.1 hq
      exact ⟨b, none, hb, rfl, by simpa [qualified?] using hq⟩
    | [e], _, hkeys =>
      obtain ⟨keys', he, hkeys⟩ := foldlM_cons_eq_ok.1 hkeys
      obtain rfl := Except.ok.inj hkeys
      cases readKey_eq_ok_iff.1 he with
      | depth levels =>
        obtain ⟨b, hb, hq⟩ := bind_eq_ok.1 hq
        obtain ⟨q', hq', hq⟩ := bind_eq_ok.1 hq
        obtain rfl := Except.ok.inj hq
        obtain ⟨bounded, -, hq'⟩ := withDepth_eq_ok_iff.1 hq'
        exact ⟨b, some (.relative levels.toInt bounded), hb, rfl, hq'⟩
      | exactDepth level =>
        obtain ⟨b, hb, hq⟩ := bind_eq_ok.1 hq
        obtain ⟨n, bounded, hlevel, -, hq⟩ := withExactDepth_eq_ok_iff.1 hq
        exact ⟨b, some (.exact n bounded), hb, by rw [hlevel]; rfl, hq⟩
      | operator _ _ first => exact absurd first (by simp)
    | e :: e' :: rest, hrest, hkeys =>
      -- a second entry is the other qualifier, and whatever follows leaves both in place
      obtain ⟨keys₁, he, hkeys⟩ := foldlM_cons_eq_ok.1 hkeys
      obtain ⟨keys₂, he', hkeys⟩ := foldlM_cons_eq_ok.1 hkeys
      have hne : e.1 ≠ e'.1 := List.rel_of_pairwise_cons hrest List.mem_cons_self
      have hboth : keys₂.depth ≠ none ∧ keys₂.exactDepth ≠ none :=
        (readKey_eq_ok_iff.1 he).both_of_ne (readKey_eq_ok_iff.1 he') hne (by simp)
      have hstay : keys.depth ≠ none ∧ keys.exactDepth ≠ none :=
        foldlM_invariant (fun keys => keys.depth ≠ none ∧ keys.exactDepth ≠ none)
          (fun _ _ _ _ hs hstep => (readKey_eq_ok_iff.1 hstep).both hs) hboth hkeys
      exact absurd hq (ofKeys_ne_ok_of_both hstay)
  · rintro ⟨b, qualifier, rfl, rfl, hq⟩
    cases b with
    | path ids =>
      cases qualifier with
      | none => simpa [readKeys, ofKeys, qualified?] using hq
      | some depth => exact absurd hq (by simp [qualified?])
    | condition c =>
      rw [readKeys_qualifier (hbuilt _ rfl)]
      cases qualifier <;> simpa [qualified?] using hq

/-- Only an operator shows a query. -/
theorem exists_operator_mem (h : readKeys keys entries = .ok keys') (hkeys : keys.body = none)
    (hkeys' : keys'.body ≠ none) :
    ∃ (operator : Operator) (operand : Json), (operator.token, operand) ∈ entries := by
  by_contra hno
  rw [readKeys_eq_foldlM] at h
  apply hkeys'
  refine foldlM_invariant (fun keys => keys.body = none) ?_ hkeys h
  intro s e he t hs hstep
  cases readKey_eq_ok_iff.1 hstep with
  | depth => exact hs
  | exactDepth => exact hs
  | operator operator operand => exact absurd ⟨operator, operand, he⟩ hno

/-- An object is read by its operator, wherever that stands, and then by the qualifier, if any. -/
theorem read_object_eq_ok_iff (hentries : (Entries.keys entries).Nodup) :
    read (.object entries) = .ok q ↔ ∃ operator operand b qualifier,
      entries.Perm ((operator.token, operand) :: (qualifier.map Depth.entry).toList) ∧
        readBody operator operand = .ok b ∧ b.qualified? qualifier = some q := by
  rw [read]
  constructor
  · intro h
    obtain ⟨keys, hkeys, hq⟩ := bind_eq_ok.1 h
    have hbody : keys.body ≠ none := by
      intro hnone
      rw [ofKeys, hnone] at hq
      exact absurd hq (by simp)
    obtain ⟨operator, operand, hmem⟩ := exists_operator_mem hkeys rfl hbody
    obtain ⟨before, after, rfl⟩ := List.append_of_mem hmem
    have hperm : (before ++ (operator.token, operand) :: after).Perm
        ((operator.token, operand) :: (before ++ after)) := List.perm_middle
    have hnodup : (Entries.keys ((operator.token, operand) :: (before ++ after))).Nodup :=
      (hperm.map Prod.fst).nodup_iff.1 hentries
    -- once the operator comes first, no other can follow
    have hread := readKeys_eq_ok_of_perm hperm hentries hkeys
    rw [readKeys_token] at hread
    have hrest := (readKeys_body_eq_ok_iff (fun _ => depth_of_readBody) hnodup.of_cons).1
      (bind_eq_ok.2 ⟨keys, hread, hq⟩)
    obtain ⟨b, qualifier, hb, hqualifier, hq⟩ := hrest
    exact ⟨operator, operand, b, qualifier, hqualifier ▸ hperm, hb, hq⟩
  · rintro ⟨operator, operand, b, qualifier, hperm, hb, hq⟩
    have hnodup := (hperm.map Prod.fst).nodup_iff.1 hentries
    have hrest := (readKeys_body_eq_ok_iff (fun _ => depth_of_readBody)
      (List.Nodup.of_cons hnodup)).2 ⟨b, qualifier, hb, rfl, hq⟩
    rw [← readKeys_token] at hrest
    obtain ⟨keys, hkeys, hq⟩ := bind_eq_ok.1 hrest
    exact bind_eq_ok.2 ⟨keys, readKeys_eq_ok_of_perm hperm.symm hnodup hkeys, hq⟩

/-- The entries that a head leaves are a qualifier, or none. -/
theorem Headed.exists_qualifier (h : Headed entries operator operand)
    (hentries : (Entries.keys entries).Nodup)
    (hperm : entries.Perm ((operator.token, operand) :: rest)) :
    ∃ qualifier : Option Depth, rest = (qualifier.map Depth.entry).toList := by
  have hnodup : (Entries.keys ((operator.token, operand) :: rest)).Nodup :=
    (hperm.map Prod.fst).nodup_iff.1 hentries
  have hmem : ∀ e ∈ rest, e ∈ entries := fun e he => hperm.mem_iff.2 (List.mem_cons_of_mem _ he)
  have hkeys : ∀ e ∈ rest, e.1 ∈ Entries.keys entries :=
    fun e he => List.mem_map_of_mem (hmem e he)
  have hqualifier : ∀ e ∈ rest, e.1 = Keyword.depth ∨ e.1 = Keyword.exactDepth := by
    intro e he
    rcases h.known e.1 (hkeys e he) with heq | heq
    · have hrepeat : e.1 ∈ Entries.keys rest := List.mem_map_of_mem he
      rw [heq] at hrepeat
      exact absurd hrepeat (List.nodup_cons.1 hnodup).1
    · exact heq
  match rest, hnodup with
  | [], _ => exact ⟨none, rfl⟩
  | [(key, v)], _ =>
    rcases hqualifier (key, v) List.mem_cons_self with rfl | rfl
    · obtain ⟨levels, rfl, hlow, hhigh⟩ := h.depth v (hmem _ List.mem_cons_self)
      have bounded : levels.natAbs ≤ maxDepth := by
        rw [maxDepth]
        omega
      exact ⟨some (.relative levels bounded), rfl⟩
    · obtain ⟨level, rfl, hlow, hhigh⟩ := h.exactDepth v (hmem _ List.mem_cons_self)
      obtain ⟨n, rfl⟩ := Int.eq_ofNat_of_zero_le hlow
      have bounded : n ≤ maxDepth := by
        rw [maxDepth]
        omega
      exact ⟨some (.exact n bounded), rfl⟩
  | e :: e' :: rest, hnodup =>
    have hne : e.1 ≠ e'.1 := List.rel_of_pairwise_cons hnodup.of_cons List.mem_cons_self
    have he := hkeys e List.mem_cons_self
    have he' := hkeys e' (List.mem_cons_of_mem _ List.mem_cons_self)
    rcases hqualifier e List.mem_cons_self with hkey | hkey <;>
      rcases hqualifier e' (List.mem_cons_of_mem _ List.mem_cons_self) with hkey' | hkey'
    · exact absurd (hkey.trans hkey'.symm) hne
    · exact absurd ⟨hkey ▸ he, hkey' ▸ he'⟩ h.exclusive
    · exact absurd ⟨hkey' ▸ he', hkey ▸ he⟩ h.exclusive
    · exact absurd (hkey.trans hkey'.symm) hne

theorem Headed.of_perm (h : Headed entries operator operand) (hperm : entries.Perm entries') :
    Headed entries' operator operand := by
  have hkeys : ∀ key, key ∈ Entries.keys entries' ↔ key ∈ Entries.keys entries :=
    fun key => (hperm.map Prod.fst).mem_iff.symm
  refine ⟨hperm.mem_iff.1 h.written, ?_, ?_, ?_, ?_⟩
  · exact fun key hkey => h.known key ((hkeys key).1 hkey)
  · exact fun v hv => h.depth v (hperm.mem_iff.2 hv)
  · exact fun v hv => h.exactDepth v (hperm.mem_iff.2 hv)
  · rw [hkeys, hkeys]
    exact h.exclusive

theorem headed_qualifier (operator : Operator) (operand : Json) (qualifier : Option Depth) :
    Headed ((operator.token, operand) :: (qualifier.map Depth.entry).toList) operator operand := by
  have hdepth : Keyword.depth ≠ operator.token := (token_ne rfl operator).symm
  have hexact : Keyword.exactDepth ≠ operator.token := (token_ne rfl operator).symm
  have hne : Keyword.exactDepth ≠ Keyword.depth := by decide
  match qualifier with
  | none => exact ⟨by simp, by simp, by simp [hdepth], by simp [hexact], by simp [hdepth]⟩
  | some (.relative levels bounded) =>
    rw [maxDepth] at bounded
    have hlevels : (Json.ofInt levels).IsIntegerIn (-100) 100 := ⟨levels, rfl, by omega, by omega⟩
    exact ⟨by simp, by simp [Depth.entry], by simpa [Depth.entry, hdepth] using hlevels,
      by simp [Depth.entry, hexact, hne], by simp [Depth.entry, hexact, hne]⟩
  | some (.exact level bounded) =>
    rw [maxDepth] at bounded
    have hlevel : (Json.ofNat level).IsIntegerIn 0 100 := ⟨level, rfl, by omega, by omega⟩
    exact ⟨by simp, by simp [Depth.entry], by simp [Depth.entry, hdepth, hne.symm],
      by simpa [Depth.entry, hexact] using hlevel, by simp [Depth.entry, hdepth, hne.symm]⟩

/-- Entries are those of a query as soon as they are, in some order, the operator and at most one
qualifier. -/
theorem headed_iff_perm (hentries : (Entries.keys entries).Nodup) :
    Headed entries operator operand ↔ ∃ qualifier : Option Depth,
      entries.Perm ((operator.token, operand) :: (qualifier.map Depth.entry).toList) := by
  constructor
  · intro h
    obtain ⟨before, after, rfl⟩ := List.append_of_mem h.written
    obtain ⟨qualifier, hrest⟩ := h.exists_qualifier hentries List.perm_middle
    exact ⟨qualifier, hrest ▸ List.perm_middle⟩
  · rintro ⟨qualifier, hperm⟩
    exact (headed_qualifier operator operand qualifier).of_perm hperm.symm

end Fonds.Query
