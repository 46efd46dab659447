import PyStatic.Proofs.Project.Mirrors
import PyStatic.Proofs.Symbol.Roles

/-!
Contract: what a symbol may stand for stays as it is, whatever else happens to the table.
-/

namespace PyStatic

open List

namespace SymbolTable

variable {table post : SymbolTable} {id : SymbolId}

theorem alternatives_eq_of_role {symbol : Symbol} (found : table.get? id = some symbol) :
    table.alternatives id = match symbol.role with
      | .ambiguous alternatives => alternatives
      | _ => [] := by
  rw [alternatives_of_get? found, Symbol.alternatives, Symbol.role]
  cases symbol.data <;> rfl

theorem Evolves.alternatives (evolves : Evolves table post) (inRange : id < table.size) :
    post.alternatives id = table.alternatives id := by
  obtain ⟨symbol, found⟩ := exists_get? inRange
  obtain ⟨later, isLater, matures⟩ := evolves id symbol found
  rw [alternatives_eq_of_role found, alternatives_eq_of_role isLater, matures.role]

theorem Evolves.plain (evolves : Evolves table post) (isPlain : table.Plain id) :
    post.Plain id := by
  obtain ⟨symbol, found, isPlain⟩ := isPlain
  obtain ⟨later, isLater, matures⟩ := evolves id symbol found
  exact ⟨later, isLater, matures.plain isPlain⟩

def parts (table : SymbolTable) (id : SymbolId) : List SymbolId :=
  id :: table.alternatives id

theorem Evolves.parts (evolves : Evolves table post) (inRange : id < table.size) :
    post.parts id = table.parts id := by
  rw [SymbolTable.parts, SymbolTable.parts, evolves.alternatives inRange]

/-- The alternatives, or the symbol itself if it is not ambiguous. -/
def options (table : SymbolTable) (id : SymbolId) : List SymbolId :=
  if table.alternatives id = [] then [id] else table.alternatives id

theorem Evolves.options (evolves : Evolves table post) (inRange : id < table.size) :
    post.options id = table.options id := by
  rw [SymbolTable.options, SymbolTable.options, evolves.alternatives inRange]

theorem options_ne_nil (table : SymbolTable) (id : SymbolId) : table.options id ≠ [] := by
  rw [options]
  split
  next => exact cons_ne_nil _ _
  next some' => exact some'

theorem mem_parts_of_mem_options {option : SymbolId} (isOption : option ∈ table.options id) :
    option ∈ table.parts id := by
  rw [options] at isOption
  split at isOption
  next => exact mem_singleton.mp isOption ▸ mem_cons_self
  next => exact mem_cons_of_mem _ isOption

theorem usageTarget_mem_options (table : SymbolTable) (id : SymbolId) :
    table.usageTarget id ∈ table.options id := by
  rw [usageTarget, options]
  split
  next none' =>
    rw [none']
    exact mem_singleton_self id
  next some' =>
    rw [getLast?_eq_some_getLast some', Option.getD_some]
    exact getLast_mem some'

theorem leaves_eq_options (sound : table.Sound) (inRange : id < table.size) (depth : Nat) :
    table.leaves (depth + 1) id = table.options id := by
  obtain ⟨symbol, found⟩ := exists_get? inRange
  rw [options, alternatives_of_get? found, Symbol.alternatives, leaves, found]
  dsimp only
  cases data : symbol.data with
  | ambiguous alternatives =>
    obtain ⟨_, several, _, plain⟩ := sound id symbol alternatives found data
    have some' : alternatives ≠ [] := ne_nil_of_length_pos (by omega)
    have opened : alternatives.flatMap (table.leaves depth) = alternatives.flatMap fun id => [id] :=
      flatMap_congr fun option isIn => leaves_of_plain (plain option isIn) depth
    rw [if_neg some']
    exact opened.trans (flatMap_singleton' alternatives)
  | _ => rfl

theorem plain_of_mem_options (sound : table.Sound) (inRange : id < table.size) {option : SymbolId}
    (isOption : option ∈ table.options id) : table.Plain option := by
  rw [← leaves_eq_options sound inRange 0] at isOption
  exact plain_of_mem_leaves sound inRange isOption

theorem parts_of_plain (isPlain : table.Plain id) : table.parts id = [id] := by
  rw [parts, alternatives_of_plain isPlain]

theorem nodup_options (sound : table.Sound) (inRange : id < table.size) :
    (table.options id).Nodup := by
  obtain ⟨symbol, found⟩ := exists_get? inRange
  rw [options]
  split
  next => exact pairwise_singleton _ id
  next some' =>
    rw [alternatives_of_get? found, Symbol.alternatives] at some' ⊢
    cases data : symbol.data with
    | ambiguous alternatives => exact (sound id symbol alternatives found data).2.2.1
    | _ => simp [data] at some'

theorem flattened_eq_options (sound : table.Sound) {ids : List SymbolId}
    (inRange : ∀ id ∈ ids, id < table.size) (apart : (ids.flatMap table.options).Nodup) :
    table.flattened ids = ids.flatMap table.options := by
  have opened : ids.flatMap (table.leaves table.size) = ids.flatMap table.options := by
    apply flatMap_congr
    intro id isIn
    have older := inRange id isIn
    obtain ⟨depth, isSize⟩ := Nat.exists_eq_succ_of_ne_zero (Nat.ne_zero_of_lt older)
    rw [isSize]
    exact leaves_eq_options sound older depth
  rw [flattened, opened, Sequence.eraseDups_of_nodup apart]

end SymbolTable

end PyStatic
