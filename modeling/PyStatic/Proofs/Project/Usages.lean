import PyStatic.Proofs.Project.Copying
import PyStatic.Proofs.Symbol.Usages

/-!
Contract: symbols that are brought in from other modules come without usages, and what belongs to
them is brought in with them.
-/

namespace PyStatic

namespace SymbolPool

structure Sound (size : Nat) (pool : SymbolPool) : Prop where
  table : pool.table.Sound
  size_le : size ≤ pool.table.size
  closed : pool.table.ClosedFrom size
  registered : ∀ (fqn : String) (id : SymbolId), pool.registry[fqn]? = some id →
    size ≤ id ∧ id < pool.table.size

variable {size : Nat} {pool post : SymbolPool} {id : SymbolId}

theorem sound_of_table {table : SymbolTable} (sound : table.Sound) :
    Sound table.size ⟨table, ∅⟩ := by
  refine ⟨sound, Nat.le_refl _, table.closedFrom_size, ?_⟩
  intro fqn id registered
  change (∅ : Registry)[fqn]? = some id at registered
  rw [Std.ExtTreeMap.getElem?_empty] at registered
  cases registered

theorem Sound.of_gains (sound : pool.Sound size)
    (gains : SymbolTable.Gains pool.table post.table []) (closed : post.table.ClosedFrom size)
    (sameRegistry : post.registry = pool.registry) : post.Sound size := by
  refine ⟨gains.sound sound.table, Nat.le_trans sound.size_le gains.size_le, closed, ?_⟩
  intro fqn id registered
  rw [sameRegistry] at registered
  obtain ⟨isNew, inRange⟩ := sound.registered fqn id registered
  exact ⟨isNew, gains.lt_size inRange⟩

theorem Sound.registerFirst (sound : pool.Sound size) (fqn : String)
    (isNew : size ≤ id ∧ id < pool.table.size) : (pool.registerFirst fqn id).Sound size := by
  refine ⟨sound.table, sound.size_le, sound.closed, ?_⟩
  intro other found registered
  change (pool.registry.insertIfNew fqn id)[other]? = some found at registered
  rw [Std.ExtTreeMap.getElem?_insertIfNew] at registered
  split at registered
  · exact Option.some.inj registered ▸ isNew
  · exact sound.registered other found registered

theorem Sound.makes {Named : String → Prop} (sound : pool.Sound size)
    (makes : Builtin.Makes Named pool post) : post.Sound size := by
  have gains := SymbolTable.gains_of_makes makes
  refine ⟨gains.sound sound.table, Nat.le_trans sound.size_le gains.size_le,
    makes.extended.closedFrom sound.closed sound.size_le makes.closed, ?_⟩
  intro fqn id registered
  rcases makes.registered fqn id registered with earlier | ⟨_, isNew, _, present⟩
  · obtain ⟨isNew, inRange⟩ := sound.registered fqn id earlier
    exact ⟨isNew, gains.lt_size inRange⟩
  · exact ⟨Nat.le_trans sound.size_le isNew, SymbolTable.lt_size_of_get? present⟩

def gaining (size : Nat) : CopyInvariant where
  Holds := Sound size
  Leads pool post := SymbolTable.Gains pool.table post.table []
  Result pool id := size ≤ id ∧ id < pool.table.size
  refl pool := .refl pool.table
  trans first second := second.after first
  stable gains isNew := ⟨isNew.1, gains.lt_size isNew.2⟩
  registered sound := sound.registered _ _
  push {pool symbol} sound unused isPlain isEmpty := by
    have gains : SymbolTable.Gains pool.table (pool.push symbol).1.table [] :=
      SymbolTable.gains_push unused fun alternatives isData => absurd (congrArg _ isData) isPlain
    have closed : (pool.push symbol).1.table.ClosedFrom size :=
      sound.closed.push (by simp [isEmpty])
    exact ⟨sound.of_gains gains closed rfl, gains, sound.size_le, SymbolTable.size_lt_push ..⟩
  registerFirst step fqn := ⟨step.holds.registerFirst fqn step.result, step.leads, step.result⟩
  makes sound makes registered :=
    have isSound := sound.makes makes
    ⟨isSound, SymbolTable.gains_of_makes makes, isSound.registered _ _ registered⟩
  fill {pool copied name fqn info} whole grown sound own members := by
    -- The class is still there and still no ambiguous symbol, so it may be filled.
    have isPlain : copied.table.Plain pool.table.size :=
      grown.plain _ ⟨_, Project.get?_openClass pool name fqn, by rintro ⟨⟩⟩
    have filled : SymbolTable.Gains copied.table
        (copied.table.setData pool.table.size (.ofClass info)) [] :=
      SymbolTable.gains_setData isPlain (by rintro ⟨⟩)
    exact ⟨sound.of_gains filled (sound.closed.setData _ members) rfl, filled.after whole, own.1,
      filled.lt_size own.2⟩
  pushAmbiguous {pool ids symbol} sound results made := by
    have gains := SymbolTable.gains_pushAmbiguous sound.table (fun id isIn => (results id isIn).2)
      made
    have closed : (pool.push symbol).1.table.ClosedFrom size := by
      apply sound.closed.push
      rw [(SymbolTable.ambiguous?_eq_ok made).2.1]
      exact SymbolTable.forall_mem_flattened (fun id held isNew => sound.closed id held isNew.1)
        results
    exact ⟨sound.of_gains gains closed rfl, gains, sound.size_le, SymbolTable.size_lt_push ..⟩

end SymbolPool

end PyStatic
