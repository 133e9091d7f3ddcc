import OnyxDB.Library.Wildcard
import OnyxDB.Store.Glob
import OnyxDB.Engine.Reference
import OnyxDB.Store.Programs

/-! What wildcard matching decides. The loop takes a star of the pattern for a letter whenever it stands at a
star of the text, so it finds the texts the pattern meets under that reading. -/

namespace OnyxDB.Store
open OnyxDB.Library.Wildcard OnyxDB.Engine OnyxDB.Engine.Value

section Loop

/-- A later start from the saved point meets the pattern behind the star. -/
def Resumes (saved : Option (List Char × List Char)) : Prop :=
  ∃ resumed head expanded, saved = some (resumed, head :: expanded) ∧
    ∃ rest, rest <:+ expanded ∧ Meets '*' resumed rest

/-- What was read since the saved point stands in the pattern word for word. -/
def Tracks (saved : Option (List Char × List Char)) (pattern text : List Char) : Prop :=
  ∀ point ∈ saved, ∃ read, point.1 = read ++ pattern ∧ point.2 = read ++ text

theorem meets_empty_iff (pattern : List Char) : Meets '*' pattern [] ↔ pattern.all (· == '*') = true := by
  induction pattern with
  | nil => exact ⟨fun _ => rfl, fun _ => .done⟩
  | cons symbol pattern rest =>
      rw [List.all_cons, Bool.and_eq_true, beq_iff_eq]
      by_cases star : symbol = '*'
      · subst star
        rw [meets_run_iff (by simp), ← rest]
        constructor
        · rintro ⟨tail, suffix, meets⟩
          rw [List.suffix_nil.mp suffix] at meets
          exact ⟨rfl, meets⟩
        · rintro ⟨_, meets⟩
          exact ⟨[], List.suffix_refl _, meets⟩
      · rw [meets_letter_iff star]
        constructor
        · rintro ⟨_, shape, _⟩
          cases shape
        · rintro ⟨same, _⟩
          exact absurd same star

/-- What a later start finds, the current start finds behind what it has read. -/
theorem Resumes.behind {saved : Option (List Char × List Char)} {pattern text : List Char}
    (resumes : Resumes saved) (tracks : Tracks saved pattern text) :
    ∃ rest, rest <:+ text ∧ Meets '*' pattern rest := by
  obtain ⟨resumed, head, expanded, rfl, rest, suffix, meets⟩ := resumes
  obtain ⟨read, patternShape, textShape⟩ := tracks _ rfl
  simp only at patternShape textShape
  rw [patternShape] at meets
  apply Meets.behind read ?_ meets
  rw [← textShape]
  exact suffix.trans (List.suffix_cons head expanded)

/-- Starting again one symbol later. -/
theorem resumes_again (head : Char) {resumed expanded : List Char} :
    Resumes (some (resumed, head :: expanded)) ↔
      Meets '*' resumed expanded ∨ Resumes (some (resumed, expanded)) := by
  constructor
  · rintro ⟨_, _, _, same, rest, suffix, meets⟩
    cases same
    cases expanded with
    | nil =>
        rw [List.suffix_nil.mp suffix] at meets
        exact Or.inl meets
    | cons next expanded =>
        rcases List.suffix_cons_iff.mp suffix with rfl | proper
        · exact Or.inl meets
        · exact Or.inr ⟨resumed, next, expanded, rfl, rest, proper, meets⟩
  · rintro (meets | ⟨_, next, further, same, rest, suffix, meets⟩)
    · exact ⟨resumed, head, expanded, rfl, expanded, List.suffix_refl _, meets⟩
    · cases same
      exact ⟨_, head, _, rfl, rest, suffix.trans (List.suffix_cons next further), meets⟩

/-- The star that a run of the text begins at. -/
theorem meets_run_resumes {pattern text : List Char} {char : Char} (letter : char ≠ '*') :
    Meets '*' ('*' :: pattern) (char :: text) ↔
      Meets '*' pattern (char :: text) ∨ Resumes (some (pattern, char :: text)) := by
  have free : (char :: text).head? ≠ some '*' := by
    rw [List.head?_cons]
    intro same
    exact letter (Option.some.inj same)
  rw [meets_run_iff free]
  constructor
  · rintro ⟨rest, suffix, meets⟩
    rcases List.suffix_cons_iff.mp suffix with rfl | proper
    · exact Or.inl meets
    · exact Or.inr ⟨pattern, char, text, rfl, rest, proper, meets⟩
  · rintro (meets | ⟨_, _, _, same, rest, suffix, meets⟩)
    · exact ⟨_, List.suffix_refl _, meets⟩
    · cases same
      exact ⟨rest, suffix.trans (List.suffix_cons char text), meets⟩

/-- The loop finds what the pattern meets from where it stands or from a later start. -/
theorem globLoop_iff (saved : Option (List Char × List Char)) (pattern text : List Char)
    (behind : ∀ point ∈ saved, text.length ≤ point.2.length) (tracks : Tracks saved pattern text) :
    globLoop saved pattern text behind = true ↔ Meets '*' pattern text ∨ Resumes saved := by
  induction saved, pattern, text, behind using globLoop.induct with
  | case1 saved pattern behind =>
      unfold globLoop
      rw [← meets_empty_iff]
      constructor
      · exact Or.inl
      · rintro (meets | resumes)
        · exact meets
        · obtain ⟨rest, suffix, meets⟩ := resumes.behind tracks
          rw [List.suffix_nil.mp suffix] at meets
          exact meets
  | case2 saved text next pattern behind _ later =>
      have further : Tracks saved pattern text := by
        intro point member
        obtain ⟨read, patternShape, textShape⟩ := tracks point member
        refine ⟨read ++ [next], ?_, ?_⟩
        · rw [patternShape, List.append_assoc, List.singleton_append]
        · rw [textShape, List.append_assoc, List.singleton_append]
      rw [globLoop.eq_def]
      simp only [if_true]
      rw [later further]
      have here : Meets '*' (next :: pattern) (next :: text) ↔ Meets '*' pattern text := by
        by_cases star : next = '*'
        · rw [star]
          exact meets_itself_iff
        · rw [meets_letter_iff star]
          constructor
          · rintro ⟨rest, same, meets⟩
            cases same
            exact meets
          · exact fun meets => ⟨text, rfl, meets⟩
      rw [here]
  | case3 saved char text pattern behind _ differ later =>
      have letter : char ≠ '*' := fun same => differ same.symm
      have further : Tracks (some (pattern, char :: text)) pattern (char :: text) := by
        intro point member
        cases member
        exact ⟨[], rfl, rfl⟩
      rw [globLoop.eq_def]
      simp only [if_neg differ, if_true]
      rw [later further, meets_run_resumes letter]
      constructor
      · exact Or.inl
      · rintro (here | resumes)
        · exact here
        · obtain ⟨rest, suffix, meets⟩ := resumes.behind tracks
          obtain ⟨last, within, covered⟩ := meets.behind_wild
          rw [← meets_run_resumes letter, meets_run_iff (by simpa using letter)]
          exact ⟨last, within.trans suffix, covered⟩
  | case4 char text next pattern differ plain resumed head expanded behind _ later =>
      have further : Tracks (some (resumed, expanded)) resumed expanded := by
        intro point member
        cases member
        exact ⟨[], rfl, rfl⟩
      have missed : ¬ Meets '*' (next :: pattern) (char :: text) := by
        rw [meets_letter_iff plain]
        rintro ⟨_, same, _⟩
        cases same
        exact differ rfl
      rw [globLoop.eq_def]
      simp only [if_neg differ, if_neg plain]
      rw [later further, ← resumes_again head]
      simp only [missed, false_or]
  | case5 saved char text next pattern differ plain behind exhausted _ =>
      have missed : ¬ Meets '*' (next :: pattern) (char :: text) := by
        rw [meets_letter_iff plain]
        rintro ⟨_, same, _⟩
        cases same
        exact differ rfl
      have stuck : ¬ Resumes saved := by
        rintro ⟨resumed, head, expanded, rfl, _⟩
        exact exhausted resumed head expanded behind rfl HEq.rfl
      rw [globLoop.eq_def]
      simp only [if_neg differ, if_neg plain, missed, stuck, or_self, iff_false]
      exact Bool.false_ne_true
  | case6 head tail resumed first expanded behind _ later =>
      have further : Tracks (some (resumed, expanded)) resumed expanded := by
        intro point member
        cases member
        exact ⟨[], rfl, rfl⟩
      have missed : ¬ Meets '*' [] (head :: tail) := by
        rw [meets_nil_iff]
        exact List.cons_ne_nil _ _
      rw [globLoop.eq_def]
      simp only
      rw [later further, ← resumes_again first]
      simp only [missed, false_or]
  | case7 saved head tail behind exhausted _ =>
      have missed : ¬ Meets '*' [] (head :: tail) := by
        rw [meets_nil_iff]
        exact List.cons_ne_nil _ _
      have stuck : ¬ Resumes saved := by
        rintro ⟨resumed, first, expanded, rfl, _⟩
        exact exhausted resumed first expanded behind rfl HEq.rfl
      rw [globLoop.eq_def]
      simp only [missed, stuck, or_self, iff_false]
      exact Bool.false_ne_true

/-- What `glob_match` finds. -/
theorem globMatch_iff (pattern text : String) :
    globMatch pattern text = true ↔ Meets '*' pattern.toList text.toList := by
  have fresh : ¬ Resumes none := by
    rintro ⟨_, _, _, same, _⟩
    cases same
  have tracks : Tracks none pattern.toList text.toList := by
    intro _ member
    cases member
  unfold globMatch
  rw [globLoop_iff none pattern.toList text.toList _ tracks]
  simp only [fresh, or_false]

end Loop

section Keys

/-- The keys that hold an entry at the readings they are looked at. -/
def LiveAt (store : ShardedStore) (readings : Bytes → Nat) (key : Bytes) : Prop :=
  (fresh (readings key) (store.engine.lookup key)).isSome = true

/-- Whether a pattern finds a text; the pattern of a single star is not matched at all. -/
def Finds (pattern text : String) : Prop := pattern = "*" ∨ Meets '*' pattern.toList text.toList

theorem Finds.denotes {pattern text : String} (finds : Finds pattern text) :
    Denotes '*' pattern.toList text.toList := by
  rcases finds with rfl | meets
  · have whole : Denotes '*' ['*'] (text.toList ++ []) := .run text.toList .done
    rw [List.append_nil] at whole
    exact whole
  · exact meets.denotes

/-- The texts listed are exactly the live keys that the pattern denotes. -/
def ListsExactly (store : ShardedStore) (readings : Bytes → Nat) (pattern : String) (texts : List String) : Prop :=
  ∀ text, text ∈ texts ↔ LiveAt store readings (utf8Bytes text) ∧ Denotes '*' pattern.toList text.toList

/-- The pattern finds the live keys it denotes, and of the keys that are no text it finds only those whose
substitute is a live key as well. -/
structure FindsAll (store : ShardedStore) (readings : Bytes → Nat) (pattern : String) : Prop where
  texts : ∀ text, LiveAt store readings (utf8Bytes text) → Denotes '*' pattern.toList text.toList →
    Finds pattern text
  others : ∀ key, LiveAt store readings key → (∀ text, key ≠ utf8Bytes text) →
    Finds pattern (fromUtf8Lossy key) → LiveAt store readings (utf8Bytes (fromUtf8Lossy key))

theorem fromUtf8Lossy_utf8Bytes (text : String) : fromUtf8Lossy (utf8Bytes text) = text := by
  rw [fromUtf8Lossy, utf8Bytes, Library.LossyText.decodeLossy_encode, String.ofList_toList]

variable [Platform]

theorem allKeys_listed (store : ShardedStore) (steady : store.engine.clock.Nondecreasing) :
    ∃ readings : Bytes → Nat,
      (∀ key, store.engine.clock.now ≤ readings key ∧
        readings key ≤ (ShardedStore.allKeys store).2.engine.clock.now) ∧
      ∀ text, text ∈ (ShardedStore.allKeys store).1 ↔
        ∃ key, LiveAt store readings key ∧ fromUtf8Lossy key = text := by
  obtain ⟨leads, readings, within, swept, nodup, listed⟩ := OnyxEngine.allKeys_refines steady
  refine ⟨readings.key, within.key, ?_⟩
  intro text
  have answer : (ShardedStore.allKeys store).1 = store.engine.allKeys.1.map fromUtf8Lossy := rfl
  have live (key : Bytes) : key ∈ store.engine.allKeys.1 ↔ LiveAt store readings.key key := by
    rw [LiveAt]
    exact (listed key).trans (by rw [congrFun swept key]; rfl)
  rw [answer, List.mem_map]
  simp only [live]

/-- `keys_matching` lists what the pattern finds. -/
theorem mem_keysMatching (store : ShardedStore) (pattern text : String) (given : pattern.isEmpty = false) :
    text ∈ (ShardedStore.keysMatching pattern store).1 ↔
      text ∈ (ShardedStore.allKeys store).1 ∧ Finds pattern text := by
  have shape : (ShardedStore.keysMatching pattern store).1 =
      if pattern = "*" ∨ pattern.isEmpty then (ShardedStore.allKeys store).1
      else (ShardedStore.allKeys store).1.filter (globMatch pattern) := by
    unfold ShardedStore.keysMatching
    simp only [bind, StateT.bind]
    cases ShardedStore.allKeys store with
    | mk keys after =>
        simp only
        split <;> rfl
  rw [shape, Finds]
  by_cases star : pattern = "*"
  · simp only [star, true_or, if_true, and_true]
  · simp only [star, given, Bool.false_eq_true, or_self, if_false, List.mem_filter, globMatch_iff, false_or]

omit [Platform] in
/-- The list of keys is exact when the pattern finds what it denotes. -/
theorem listsExactly_iff {store : ShardedStore} {readings : Bytes → Nat} {pattern : String} {texts : List String}
    (listed : ∀ text, text ∈ texts ↔
      (∃ key, LiveAt store readings key ∧ fromUtf8Lossy key = text) ∧ Finds pattern text) :
    ListsExactly store readings pattern texts ↔ FindsAll store readings pattern := by
  constructor
  · intro exact
    constructor
    · intro text live denotes
      exact ((listed text).mp ((exact text).mpr ⟨live, denotes⟩)).2
    · intro key live _ finds
      exact ((exact _).mp ((listed _).mpr ⟨⟨key, live, rfl⟩, finds⟩)).1
  · intro all text
    rw [listed text]
    constructor
    · rintro ⟨⟨key, live, rfl⟩, finds⟩
      refine ⟨?_, finds.denotes⟩
      by_cases encoded : ∃ text, key = utf8Bytes text
      · obtain ⟨text, rfl⟩ := encoded
        rw [fromUtf8Lossy_utf8Bytes]
        exact live
      · exact all.others key live (fun text same => encoded ⟨text, same⟩) finds
    · rintro ⟨live, denotes⟩
      exact ⟨⟨_, live, fromUtf8Lossy_utf8Bytes text⟩, all.texts text live denotes⟩

/-- Matching decides what a pattern denotes, and the keys listed for a pattern are the live keys it denotes,
exactly where the star of a pattern may be taken for a letter at every star of the text. -/
theorem globMatch_decides_iff :
    (∀ pattern text : String,
      (globMatch pattern text = true ↔ Denotes '*' pattern.toList text.toList) ↔
        (Denotes '*' pattern.toList text.toList → Meets '*' pattern.toList text.toList)) ∧
    ∀ (store : ShardedStore) (pattern : String), store.engine.clock.Nondecreasing → pattern.isEmpty = false →
      ∃ readings : Bytes → Nat,
        (∀ key, store.engine.clock.now ≤ readings key ∧
          readings key ≤ (ShardedStore.allKeys store).2.engine.clock.now) ∧
        (ListsExactly store readings pattern (ShardedStore.keysMatching pattern store).1 ↔
          FindsAll store readings pattern) := by
  constructor
  · intro pattern text
    rw [globMatch_iff]
    exact ⟨fun decides denotes => decides.mpr denotes, fun finds => ⟨Meets.denotes, finds⟩⟩
  · intro store pattern steady given
    obtain ⟨readings, within, listed⟩ := allKeys_listed store steady
    refine ⟨readings, within, listsExactly_iff (fun text => ?_)⟩
    rw [mem_keysMatching store pattern text given, listed text]

end Keys

end OnyxDB.Store

namespace OnyxDB.Store
open OnyxDB.Library.Wildcard OnyxDB.Engine

/-- The star of a pattern is taken for the star of the text and can no longer stand for more. -/
theorem not_meets_star : ¬ Meets '*' ['*', 'a'] ['*', 'b', 'a'] := by
  intro meets
  obtain ⟨rest, same, _⟩ := (meets_letter_iff (by decide)).mp (meets_itself_iff.mp meets)
  cases same

theorem denotes_star : Denotes '*' ['*', 'a'] ['*', 'b', 'a'] := .run ['*', 'b'] (.letter (by decide) .done)

theorem globMatch_misses_star :
    ¬ (globMatch "*a" "*ba" = true ↔ Denotes '*' "*a".toList "*ba".toList) :=
  fun decides => not_meets_star ((globMatch_iff "*a" "*ba").mp (decides.mpr denotes_star))

/-- A store with a key that `*a` finds, one that it denotes and misses, and one that it does not denote. -/
def threeKeys [Platform] : ShardedStore :=
  (ShardedStore.new (.constant 0)).replaceAll
    (["ba", "*ba", "b"].map (fun text => (Value.utf8Bytes text, ⟨.int 0, none, 0, 0⟩)))

/-- Of the two keys that `*a` denotes, one is listed. -/
theorem globMatch_decides_iff_three :
    letI := Reference.platform (fun _ => .error "unsupported")
    "ba" ∈ (ShardedStore.keysMatching "*a" threeKeys).1 ∧ "*ba" ∉ (ShardedStore.keysMatching "*a" threeKeys).1 ∧
      ∃ readings : List UInt8 → Nat,
        (ListsExactly threeKeys readings "*a" (ShardedStore.keysMatching "*a" threeKeys).1 ↔
          FindsAll threeKeys readings "*a") ∧
        ¬ ListsExactly threeKeys readings "*a" (ShardedStore.keysMatching "*a" threeKeys).1 := by
  let _ := Reference.platform (fun _ => .error "unsupported")
  have finds : Finds "*a" "ba" := .inr (.run ['b'] (by decide) (.letter (by decide) .done))
  have listed : "ba" ∈ (ShardedStore.allKeys threeKeys).1 := by decide +kernel
  have missed : "*ba" ∉ (ShardedStore.keysMatching "*a" threeKeys).1 := by
    rw [mem_keysMatching _ _ _ (by decide)]
    rintro ⟨_, same | meets⟩
    · exact absurd same (by decide)
    · exact not_meets_star meets
  obtain ⟨readings, _, exact⟩ := globMatch_decides_iff.2 threeKeys "*a" (fun _ _ _ => Nat.le_refl 0) (by decide)
  refine ⟨(mem_keysMatching _ _ _ (by decide)).mpr ⟨listed, finds⟩, missed, readings, exact, fun lists => ?_⟩
  have held : threeKeys.engine.lookup (Value.utf8Bytes "*ba") = some ⟨.int 0, none, 0, 0⟩ := by
    with_unfolding_all rfl
  have live : LiveAt threeKeys readings (Value.utf8Bytes "*ba") := by
    rw [LiveAt, held]
    rfl
  exact missed ((lists "*ba").mpr ⟨live, denotes_star⟩)

end OnyxDB.Store
