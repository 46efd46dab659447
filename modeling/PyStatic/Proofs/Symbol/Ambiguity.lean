import PyStatic.Proofs.Symbol.Usages
import Mathlib.Data.List.Nodup

/-!
Contract: when symbols can be the alternatives of one symbol, and what that symbol is.
-/

namespace PyStatic.SymbolTable

open List

/-- Alternatives were made before what they are alternatives of. -/
def AlternativesOlder (table : SymbolTable) : Prop :=
  ∀ id, id < table.size → ∀ alternative ∈ table.alternatives id, alternative < id

instance (table : SymbolTable) : Decidable table.AlternativesOlder :=
  inferInstanceAs (Decidable (∀ id, id < table.size →
    ∀ alternative ∈ table.alternatives id, alternative < id))

/-- Ambiguous symbols are replaced by their alternatives, and repeats left out. -/
inductive Opens (table : SymbolTable) :
    (pending flat result : List SymbolId) → Prop where
  | done (flat : List SymbolId) : Opens table [] flat flat
  | nested {id : SymbolId} {symbol : Symbol} {alternatives pending flat result : List SymbolId}
      (found : table.get? id = some symbol) (isData : symbol.data = .ambiguous alternatives)
      (rest : Opens table (alternatives ++ pending) flat result) :
      Opens table (id :: pending) flat result
  | again {id : SymbolId} {pending flat result : List SymbolId} (isPlain : table.Plain id)
      (isIn : id ∈ flat) (rest : Opens table pending flat result) :
      Opens table (id :: pending) flat result
  | first {id : SymbolId} {pending flat result : List SymbolId} (isPlain : table.Plain id)
      (isNew : id ∉ flat) (rest : Opens table pending (flat ++ [id]) result) :
      Opens table (id :: pending) flat result

variable {table : SymbolTable} {id : SymbolId} {ids others : List SymbolId}

theorem plain_or_ambiguous (inRange : id < table.size) :
    table.Plain id ∨ ∃ symbol alternatives,
      table.get? id = some symbol ∧ symbol.data = .ambiguous alternatives := by
  obtain ⟨symbol, found⟩ := exists_get? inRange
  cases isData : symbol.data with
  | ambiguous alternatives => exact Or.inr ⟨symbol, alternatives, found, isData⟩
  | _ => exact Or.inl ⟨symbol, found, by simp [Symbol.kind, SymbolData.kind, isData]⟩

section Older

variable (older : table.AlternativesOlder) {alternatives : List SymbolId}

include older

theorem AlternativesOlder.lt {symbol : Symbol} (found : table.get? id = some symbol)
    (isData : symbol.data = .ambiguous alternatives) :
    ∀ alternative ∈ alternatives, alternative < id := by
  intro alternative isIn
  apply older id (lt_size_of_get? found)
  rw [alternatives_of_get? found, Symbol.alternatives, isData]
  exact isIn

theorem leaves_of_lt (depth : Nat) {other : Nat} {id : SymbolId} (inRange : id < table.size)
    (below : id < depth) (belowOther : id < other) :
    table.leaves depth id = table.leaves other id := by
  induction depth generalizing other id with
  | zero => exact absurd below (Nat.not_lt_zero id)
  | succ _ ih =>
    rcases plain_or_ambiguous inRange with isPlain | ⟨_, alternatives, found, isData⟩
    · rw [leaves_of_plain isPlain, leaves_of_plain isPlain]
    · obtain ⟨other, rfl⟩ := Nat.exists_eq_succ_of_ne_zero (Nat.ne_zero_of_lt belowOther)
      rw [leaves, leaves]
      simp only [found, isData]
      apply flatMap_congr
      intro alternative isIn
      have lt := older.lt found isData alternative isIn
      exact ih (Nat.lt_trans lt inRange)
        (Nat.lt_of_lt_of_le lt (Nat.le_of_lt_succ below))
        (Nat.lt_of_lt_of_le lt (Nat.le_of_lt_succ belowOther))

theorem leaves_nested {symbol : Symbol} (found : table.get? id = some symbol)
    (isData : symbol.data = .ambiguous alternatives) :
    table.leaves table.size id = alternatives.flatMap (table.leaves table.size) := by
  have inRange := lt_size_of_get? found
  rw [leaves_of_lt older table.size inRange inRange (Nat.lt_succ_self id), leaves]
  simp only [found, isData]
  apply flatMap_congr
  intro alternative isIn
  have lt := older.lt found isData alternative isIn
  exact leaves_of_lt older id (Nat.lt_trans lt inRange) lt (Nat.lt_trans lt inRange)

theorem Opens.result_eq {pending flat result : List SymbolId}
    (opens : table.Opens pending flat result) (distinct : flat.Nodup) :
    result = (flat ++ pending.flatMap (table.leaves table.size)).eraseDups := by
  induction opens with
  | done => rw [flatMap_nil, append_nil, Sequence.eraseDups_of_nodup distinct]
  | nested found isData _ ih =>
    rw [ih distinct, flatMap_append, flatMap_cons, leaves_nested older found isData]
  | again isPlain isIn _ ih =>
    rw [ih distinct, flatMap_cons, leaves_of_plain isPlain,
      singleton_append, Sequence.eraseDups_append_cons isIn]
  | first isPlain isNew _ ih =>
    rw [ih (nodup_append.mpr ?_), flatMap_cons, leaves_of_plain isPlain, append_assoc]
    refine ⟨distinct, nodup_singleton _, ?_⟩
    rintro other isIn _ isLast rfl
    exact isNew (mem_singleton.mp isLast ▸ isIn)

theorem exists_opens_cons (id : SymbolId) {pending : List SymbolId} (inRange : id < table.size)
    (ends : ∀ flat, ∃ result, table.Opens pending flat result) (flat : List SymbolId) :
    ∃ result, table.Opens (id :: pending) flat result := by
  induction id using Nat.strongRecOn generalizing pending flat with
  | _ id ih =>
    rcases plain_or_ambiguous inRange with isPlain | ⟨_, alternatives, found, isData⟩
    · by_cases isIn : id ∈ flat
      · obtain ⟨result, opens⟩ := ends flat
        exact ⟨result, .again isPlain isIn opens⟩
      · obtain ⟨result, opens⟩ := ends (flat ++ [id])
        exact ⟨result, .first isPlain isIn opens⟩
    · have all : ∀ opened : List SymbolId, (∀ alternative ∈ opened, alternative < id) →
          ∀ flat, ∃ result, table.Opens (opened ++ pending) flat result := by
        intro opened lower
        induction opened with
        | nil => exact ends
        | cons alternative _ restEnds =>
          obtain ⟨lt, restLower⟩ := forall_mem_cons.mp lower
          exact ih alternative lt (Nat.lt_trans lt inRange) (restEnds restLower)
      obtain ⟨result, opens⟩ := all alternatives (older.lt found isData) flat
      exact ⟨result, .nested found isData opens⟩

theorem exists_opens {ids : List SymbolId} (inRange : ∀ id ∈ ids, id < table.size) :
    ∀ flat, ∃ result, table.Opens ids flat result := by
  induction ids with
  | nil => exact fun flat => ⟨flat, .done flat⟩
  | cons id _ ih =>
    obtain ⟨first, others⟩ := forall_mem_cons.mp inRange
    exact exists_opens_cons older id first (ih others)

theorem opens_iff {ids : List SymbolId} (inRange : ∀ id ∈ ids, id < table.size)
    {flat : List SymbolId} : table.Opens ids [] flat ↔ flat = table.flattened ids := by
  constructor
  · exact fun opens => opens.result_eq older nodup_nil
  · rintro rfl
    obtain ⟨result, opens⟩ := exists_opens older inRange []
    have isResult : result = table.flattened ids := opens.result_eq older nodup_nil
    exact isResult ▸ opens

end Older

theorem Opens.plain {pending flat result : List SymbolId}
    (opens : table.Opens pending flat result) (plain : ∀ id ∈ flat, table.Plain id) :
    ∀ id ∈ result, table.Plain id := by
  induction opens with
  | done => exact plain
  | nested _ _ _ ih => exact ih plain
  | again _ _ _ ih => exact ih plain
  | first isPlain _ _ ih =>
    apply ih
    rw [forall_mem_append]
    exact ⟨plain, fun id isIn => mem_singleton.mp isIn ▸ isPlain⟩

theorem nodup_flattened (ids : List SymbolId) : (table.flattened ids).Nodup :=
  Sequence.nodup_eraseDups _

theorem flattened_perm (perm : ids.Perm others) :
    (table.flattened ids).Perm (table.flattened others) := by
  rw [perm_ext_iff_of_nodup (nodup_flattened ids) (nodup_flattened others)]
  intro id
  rw [flattened, flattened, mem_eraseDups, mem_eraseDups]
  exact (perm.flatMap_right _).mem_iff

theorem commonName?_eq_some_iff {name : String} :
    table.commonName? ids = some name ↔ ids ≠ [] ∧ ∀ id ∈ ids, table.nameOf id = name := by
  cases ids with
  | nil => simp [commonName?]
  | cons =>
    simp only [commonName?, all_eq_true, beq_iff_eq, Option.ite_none_right_eq_some,
      Option.some.injEq, forall_mem_cons, ne_eq, reduceCtorEq, not_false_eq_true, true_and]
    constructor
    · rintro ⟨same, rfl⟩
      exact ⟨rfl, same⟩
    · rintro ⟨rfl, same⟩
      exact ⟨same, rfl⟩

theorem commonFqn?_eq_some_iff {fqn : String} :
    table.commonFqn? ids = some fqn ↔ ids ≠ [] ∧ ∀ id ∈ ids, table.fqnOf? id = some fqn := by
  cases ids with
  | nil => simp [commonFqn?]
  | cons =>
    simp [commonFqn?, Option.filter_eq_some_iff]

theorem commonName?_perm (perm : ids.Perm others) :
    table.commonName? ids = table.commonName? others := by
  apply Option.ext
  intro name
  simp only [commonName?_eq_some_iff, ← length_pos_iff, perm.length_eq, perm.mem_iff]

theorem commonFqn?_perm (perm : ids.Perm others) :
    table.commonFqn? ids = table.commonFqn? others := by
  apply Option.ext
  intro fqn
  simp only [commonFqn?_eq_some_iff, ← length_pos_iff, perm.length_eq, perm.mem_iff]

/-- All have one name, or all have one full name. -/
def Share (table : SymbolTable) (ids : List SymbolId) : Prop :=
  (∃ name, ∀ id ∈ ids, table.nameOf id = name) ∨ ∃ fqn, ∀ id ∈ ids, table.fqnOf? id = some fqn

def sharing (table : SymbolTable) (ids : List SymbolId) : Symbol :=
  .fresh ((table.commonName? ids).getD "") (table.commonFqn? ids) (.ambiguous ids)
    ((ids.head?.bind table.get?).bind (·.scope))

theorem share_iff (isSome : ids ≠ []) :
    table.Share ids ↔ (table.commonName? ids).isSome = true ∨
      (table.commonFqn? ids).isSome = true := by
  simp only [Share, Option.isSome_iff_exists, commonName?_eq_some_iff, commonFqn?_eq_some_iff,
    isSome, ne_eq, not_false_eq_true, true_and]

theorem Share.perm (perm : ids.Perm others) (share : table.Share ids) : table.Share others := by
  simpa only [Share, perm.mem_iff] using share

theorem ambiguous?_eq_ok_iff {symbol : Symbol} :
    table.ambiguous? ids = .ok symbol ↔ 2 ≤ (table.flattened ids).length ∧
      table.Share (table.flattened ids) ∧ symbol = table.sharing (table.flattened ids) := by
  rw [ambiguous?, @eq_comm _ symbol]
  rcases table.flattened ids with _ | ⟨first, _ | ⟨second, rest⟩⟩
  · simp
  · simp
  · rw [share_iff (cons_ne_nil first _), sharing]
    cases isName : table.commonName? (first :: second :: rest) <;>
      cases isFqn : table.commonFqn? (first :: second :: rest) <;> simp [isName, isFqn]

theorem pushAmbiguous_eq_ok_iff {post : SymbolTable} {made : SymbolId} :
    table.pushAmbiguous ids = .ok (post, made) ↔ 2 ≤ (table.flattened ids).length ∧
      table.Share (table.flattened ids) ∧
      post = table.push (table.sharing (table.flattened ids)) ∧ made = table.size := by
  have onlySo : table.pushAmbiguous ids = .ok (post, made) ↔
      ∃ symbol, table.ambiguous? ids = .ok symbol ∧
        table.push symbol = post ∧ table.size = made := by
    rw [pushAmbiguous]
    cases table.ambiguous? ids <;> simp [Except.map]
  simp only [onlySo, ambiguous?_eq_ok_iff]
  constructor
  · rintro ⟨_, ⟨several, share, rfl⟩, rfl, rfl⟩
    exact ⟨several, share, rfl, rfl⟩
  · rintro ⟨several, share, rfl, rfl⟩
    exact ⟨_, ⟨several, share, rfl⟩, rfl, rfl⟩

section Pushed

variable (ids)

@[simp] theorem alternatives_push_sharing :
    (table.push (table.sharing ids)).alternatives table.size = ids := by
  rw [alternatives_of_get? (get?_push_size _ _)]
  rfl

@[simp] theorem nameOf_push_sharing :
    (table.push (table.sharing ids)).nameOf table.size = (table.commonName? ids).getD "" := by
  rw [nameOf, get?_push_size]
  rfl

@[simp] theorem fqnOf?_push_sharing :
    (table.push (table.sharing ids)).fqnOf? table.size = table.commonFqn? ids := by
  rw [fqnOf?, get?_push_size]
  rfl

end Pushed

/-- One symbol can be made exactly for at least two that share a name or a full name. -/
theorem pushAmbiguous_exact (table : SymbolTable) (older : table.AlternativesOlder)
    (ids : List SymbolId) (inRange : ∀ id ∈ ids, id < table.size) :
    (∀ flat, table.Opens ids [] flat ↔ flat = table.flattened ids) ∧
    ((∃ made, table.pushAmbiguous ids = .ok made) ↔
      2 ≤ (table.flattened ids).length ∧ table.Share (table.flattened ids)) ∧
    (∀ post made, table.pushAmbiguous ids = .ok (post, made) →
      (made = table.size ∧ post.size = table.size + 1 ∧ post.bound = table.bound ∧
        ∀ id, id < table.size → post.get? id = table.get? id) ∧
      (post.alternatives made = table.flattened ids ∧ (table.flattened ids).Nodup ∧
        ∀ alternative ∈ post.alternatives made, post.Plain alternative) ∧
      (∀ name, (∀ id ∈ table.flattened ids, table.nameOf id = name) → post.nameOf made = name) ∧
      (∀ fqn, post.fqnOf? made = some fqn ↔
        ∀ id ∈ table.flattened ids, table.fqnOf? id = some fqn) ∧
      ∀ others, ids.Perm others → ∃ otherPost, table.pushAmbiguous others = .ok (otherPost, made) ∧
        (∀ id, id ∈ otherPost.alternatives made ↔ id ∈ post.alternatives made) ∧
        otherPost.nameOf made = post.nameOf made ∧ otherPost.fqnOf? made = post.fqnOf? made) ∧
    ∀ error, table.pushAmbiguous ids = .error error → (table.unite ids).1 = table := by
  refine ⟨fun flat => opens_iff older inRange, ?_, ?_, ?_⟩
  · simp only [Prod.exists, pushAmbiguous_eq_ok_iff]
    exact ⟨fun ⟨_, _, several, share, _⟩ => ⟨several, share⟩,
      fun ⟨several, share⟩ => ⟨_, _, several, share, rfl, rfl⟩⟩
  · intro post made isMade
    obtain ⟨several, share, rfl, rfl⟩ := pushAmbiguous_eq_ok_iff.mp isMade
    have isSome : table.flattened ids ≠ [] :=
      List.length_pos_iff.mp (Nat.lt_of_lt_of_le Nat.two_pos several)
    refine ⟨⟨rfl, size_push _ _, rfl, fun id lt => get?_push_of_lt lt⟩,
      ⟨alternatives_push_sharing _, nodup_flattened ids, ?_⟩, ?_, ?_, ?_⟩
    · intro alternative isIn
      rw [alternatives_push_sharing] at isIn
      have opens := (opens_iff older inRange).mpr rfl
      obtain ⟨symbol, found, isPlain⟩ := opens.plain (by simp) alternative isIn
      exact ⟨symbol, (get?_push_of_lt (lt_size_of_get? found)).trans found, isPlain⟩
    · intro name named
      rw [nameOf_push_sharing, commonName?_eq_some_iff.mpr ⟨isSome, named⟩, Option.getD_some]
    · intro fqn
      rw [fqnOf?_push_sharing, commonFqn?_eq_some_iff, and_iff_right isSome]
    · intro others perm
      have flatPerm : (table.flattened ids).Perm (table.flattened others) := flattened_perm perm
      refine ⟨_, pushAmbiguous_eq_ok_iff.mpr
        ⟨flatPerm.length_eq ▸ several, share.perm flatPerm, rfl, rfl⟩, ?_, ?_, ?_⟩
      · intro id
        rw [alternatives_push_sharing, alternatives_push_sharing, flatPerm.mem_iff]
      · rw [nameOf_push_sharing, nameOf_push_sharing, commonName?_perm flatPerm]
      · rw [fqnOf?_push_sharing, fqnOf?_push_sharing, commonFqn?_perm flatPerm]
  · intro error failed
    rw [unite, failed]

def nestedAmbiguity : SymbolTable :=
  let symbol (data : SymbolData) : Symbol := .fresh "f" none data none
  ⟨#[symbol (.function .blank), symbol (.function .blank), symbol (.ambiguous [0, 1]),
    symbol (.function .blank)], ∅⟩

theorem pushAmbiguous_nested :
    nestedAmbiguity.AlternativesOlder ∧ nestedAmbiguity.flattened [2, 3, 0] = [0, 1, 3] ∧
      ∃ post, nestedAmbiguity.pushAmbiguous [2, 3, 0] = .ok (post, 4) ∧
        post.alternatives 4 = [0, 1, 3] ∧ post.nameOf 4 = "f" := by
  have older : nestedAmbiguity.AlternativesOlder := by decide
  have flat : nestedAmbiguity.flattened [2, 3, 0] = [0, 1, 3] := by decide
  obtain ⟨_, isMade, outcome, _⟩ := pushAmbiguous_exact nestedAmbiguity older [2, 3, 0] (by decide)
  have named : ∀ id ∈ nestedAmbiguity.flattened [2, 3, 0], nestedAmbiguity.nameOf id = "f" := by
    decide
  obtain ⟨⟨post, made⟩, isPost⟩ := isMade.mpr ⟨by decide, Or.inl ⟨"f", named⟩⟩
  obtain ⟨⟨rfl, _⟩, ⟨isAlternatives, _⟩, isName, _⟩ := outcome post made isPost
  exact ⟨older, flat, post, isPost, isAlternatives.trans flat, isName "f" named⟩

end PyStatic.SymbolTable
