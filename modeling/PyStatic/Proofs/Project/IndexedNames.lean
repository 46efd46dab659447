import PyStatic.Proofs.Binding.StaticScoping
import PyStatic.Proofs.Project.IndexOrder
import PyStatic.Proofs.Text.DottedNames

/-!
Contract: what a module binds at its top is found in the project under the module's name.
-/

namespace PyStatic

open List

namespace SymbolTable

variable {table : SymbolTable} {owner : SymbolId → Option String}

theorem name_exportWithin (table : SymbolTable) (depth : Nat) (path : String)
    (seen : List SymbolId) (id : SymbolId) :
    (table.exportWithin depth path seen id).2.name = table.nameOf id := by
  cases depth with
  | zero => rfl
  | succ =>
    rw [exportWithin, nameOf]
    cases table.get? id with
    | none => rfl
    | some symbol =>
      dsimp only
      split
      · rfl
      · cases symbol.data <;> rfl

theorem kind_exportSymbol {id : SymbolId} {symbol : Symbol} (found : table.get? id = some symbol)
    {seen : List SymbolId} (unseen : id ∉ seen) (path : String) :
    (table.exportSymbol path seen id).2.kind = symbol.kind := by
  rw [exportSymbol, exportWithin, found]
  dsimp only
  rw [if_neg (by simpa using unseen), Symbol.kind]
  cases symbol.data <;> rfl

theorem exportWithin_marks {Marked : SymbolId → Prop}
    (closed : ∀ id held, Marked id → table.Holds id held → Marked held) (depth : Nat) :
    ∀ (path : String) {seen : List SymbolId} {id : SymbolId}, Marked id →
      (∀ mark ∈ seen, Marked mark) →
        ∀ mark ∈ (table.exportWithin depth path seen id).1, Marked mark := by
  induction depth with
  | zero => exact fun _ _ _ _ marks => marks
  | succ depth ih =>
    intro path seen id isMarked marks
    have all (path : String) {symbol : Symbol} (found : table.get? id = some symbol) :
        ∀ mark ∈ (Sequence.collect (table.exportWithin depth path) (id :: seen)
          symbol.data.held).1, Marked mark :=
      (Sequence.collect_keeps (∀ mark ∈ ·, Marked mark) (fun _ _ => True) (fun _ _ _ => True)
        (fun _ => trivial) (fun _ _ => trivial) (fun _ _ _ _ _ _ => trivial)
        (fun held isHeld {_} marks =>
          ⟨ih path (closed id held isMarked ⟨symbol, found, isHeld⟩) marks,
            trivial, trivial⟩) (forall_mem_cons.mpr ⟨isMarked, marks⟩)).1
    rw [exportWithin]
    cases found : table.get? id with
    | none => exact marks
    | some symbol =>
      have heldMarks (path : String) := all path found
      dsimp only
      split
      · exact marks
      · cases data : symbol.data with
        | other _ | function _ =>
          exact forall_mem_cons.mpr ⟨isMarked, marks⟩
        | ofClass _ | ambiguous _ =>
          rw [data] at heldMarks
          exact heldMarks _

theorem find?_exports (owned : table.OwnedBy owner) {id : SymbolId} {symbol : Symbol}
    (found : table.get? id = some symbol) (path : String) {ids : List SymbolId} :
    ∀ {seen : List SymbolId}, (∀ other ∈ ids, owner other = some (table.nameOf other)) →
      (∀ other ∈ ids, table.nameOf other = symbol.name → other = id) → id ∈ ids →
      (∀ mark ∈ seen, owner mark ≠ some symbol.name) →
        ∃ exported, (Sequence.collect (table.exportSymbol path) seen ids).2.find?
            (·.name == symbol.name) = some exported ∧
          exported.name = symbol.name ∧ exported.kind = symbol.kind := by
  have isName : table.nameOf id = symbol.name := by
    rw [nameOf, found]
    rfl
  induction ids with
  | nil => exact fun _ _ isIn => absurd isIn not_mem_nil
  | cons first rest ih =>
    intro seen owners only isIn marks
    have firstName := table.name_exportWithin (table.size + 1) path seen first
    by_cases same : table.nameOf first = symbol.name
    · -- The symbol has its own name for an owner, and no symbol that was marked has.
      obtain rfl := only first mem_cons_self same
      have unseen : first ∉ seen := fun isSeen =>
        marks first isSeen (isName ▸ owners first mem_cons_self)
      exact ⟨_, find?_cons_of_pos (beq_iff_eq.mpr (firstName.trans same)),
        firstName.trans same, kind_exportSymbol found unseen path⟩
    · have others : id ∈ rest :=
        (mem_cons.mp isIn).resolve_left fun isFirst => same (isFirst ▸ isName)
      -- What the first symbol leads to has no other owner, so no mark has the name in question.
      have marked := exportWithin_marks (fun id held isMarked holds => fun isOwner =>
          isMarked ((owned.holds id held holds).2 symbol.name isOwner)) (table.size + 1) path
        (fun isOwner => same
          (Option.some.inj ((owners first mem_cons_self).symm.trans isOwner))) marks
      obtain ⟨exported, isFound, kept⟩ := ih
        (fun other isOther => owners other (mem_cons_of_mem _ isOther))
        (fun other isOther => only other (mem_cons_of_mem _ isOther)) others marked
      refine ⟨exported, (find?_cons_of_neg ?_).trans isFound, kept⟩
      exact fun isSame => same (firstName.symm.trans (beq_iff_eq.mp isSame))

end SymbolTable

namespace Model

open Resolution

variable {around : Surroundings} {survey : Survey}

theorem resolve_called (wellFormed : survey.WellFormed) : (resolve around survey).Called :=
  (resolve_advances around wellFormed survey.spares_nothing).called (called_read wellFormed)

theorem resolve_owned (wellFormed : survey.WellFormed) : (resolve around survey).table.Owned := by
  have bound := read_advances_bindings around wellFormed survey.spares_nothing nofun
  have resolved := resolve_advances around wellFormed survey.spares_nothing
  exact resolved.owned (bound.owned (ofBindings_owned around wellFormed))

theorem find?_exports (around : Surroundings) (module' : Module) {name : String} {id : SymbolId}
    (isNamed : name ≠ "")
    (bound : (ofModule around module').table.lookup? moduleScope name = some id) :
    ∃ symbol exported, (ofModule around module').table.get? id = some symbol ∧
      (ofModule around module').exports.find? (·.name == name) = some exported ∧
      exported.name = name ∧ exported.kind = symbol.kind := by
  have wellFormed := Survey.wellFormed_ofModule around module'
  have called : ∀ name id, (ofModule around module').table.lookup? moduleScope name = some id →
      (ofModule around module').table.Calls id name :=
    (resolve_called wellFormed).bound moduleScope
  obtain ⟨owner, owned⟩ : (ofModule around module').table.Owned := resolve_owned wellFormed
  rw [exports, globals]
  generalize (ofModule around module').table = table at bound called owned ⊢
  obtain ⟨symbol, found, rfl⟩ := (called name id bound).exists_get?
  have bindsName {other : SymbolId}
      (isIn : other ∈ (table.inScope moduleScope).filter fun id => !(table.nameOf id).isEmpty) :
      table.lookup? moduleScope (table.nameOf other) = some other := by
    obtain ⟨otherName, isBound⟩ := SymbolTable.mem_inScope.mp (mem_filter.mp isIn).1
    rwa [(called otherName other isBound).nameOf]
  have isIn : id ∈ (table.inScope moduleScope).filter fun id => !(table.nameOf id).isEmpty := by
    refine mem_filter.mpr ⟨SymbolTable.mem_inScope.mpr ⟨_, bound⟩, ?_⟩
    rw [(called symbol.name id bound).nameOf]
    simpa using isNamed
  refine ⟨symbol, (SymbolTable.find?_exports owned found _ ?_ ?_ isIn ?_).imp
    fun exported kept => ⟨found, kept⟩⟩
  · exact fun other isOther => (owned.bound _ _ _ (bindsName isOther)).2
  · intro other isOther sameName
    have isBound := bindsName isOther
    rw [sameName, bound] at isBound
    exact (Option.some.inj isBound).symm
  · exact fun mark isMark => absurd isMark not_mem_nil

end Model

namespace Project

theorem exists_cuts {qualifier : List String} (isQualified : qualifier ≠ []) (last : String) :
    ∃ others, cuts (qualifier ++ [last]) = (qualifier, [last]) :: others := by
  obtain ⟨length, isLength⟩ :=
    Nat.exists_eq_succ_of_ne_zero (length_pos_iff.mpr isQualified).ne'
  have lengths : (List.range (qualifier ++ [last]).length).tail =
      (List.range qualifier.length).tail ++ [qualifier.length] := by
    rw [length_append, length_singleton, range_succ, isLength, range_succ,
      tail_append_of_ne_nil (by simp)]
  have longest : ((qualifier ++ [last]).take qualifier.length,
      (qualifier ++ [last]).drop qualifier.length) = (qualifier, [last]) := by simp
  rw [cuts, lengths, map_append, reverse_append, ← longest]
  exact ⟨_, rfl⟩

/-- Each name that a module binds at its top is found under the module's name. -/
theorem symbol?_add (project : Project) (source : ProjectFile) :
    let model := Model.ofModule (source.around project) source.module'
    (model.hasUnresolvedWildcard = false → ∀ name id, name ≠ "" → '.' ∉ name.toList →
      model.table.lookup? moduleScope name = some id →
        ∃ symbol exported, model.table.get? id = some symbol ∧
          exported.name = name ∧ exported.kind = symbol.kind ∧
          ∀ others : List ProjectFile, source.name ∉ others.map (·.name) →
            (others.foldl add (project.add source)).symbol? (source.name ++ "." ++ name) =
              some exported) ∧
      ∀ other, other ≠ source.name →
        (project.add source).exports? other = project.exports? other := by
  intro model
  constructor
  · intro followed name id isNamed isPlain bound
    obtain ⟨symbol, exported, found, isExported, isName, isKind⟩ :=
      Model.find?_exports (source.around project) source.module' isNamed bound
    refine ⟨symbol, exported, found, isName, isKind, ?_⟩
    intro others distinct
    obtain ⟨shorter, isFirst⟩ := exists_cuts (Dotted.parts_ne_nil source.name) name
    have exports : (others.foldl add (project.add source)).exports? source.name =
        some model.exports := by
      rw [exports?_pass_of_not_mem _ distinct, exports?_add, if_pos rfl]
      exact congrArg some (if_neg (Bool.not_eq_true _ ▸ followed))
    rw [symbol?, Dotted.parts_append, Dotted.parts_of_not_mem isPlain, isFirst,
      List.findSome?_cons, symbolIn?, Dotted.ofParts_parts, exports]
    dsimp only [Option.bind, descend, List.foldl_nil]
    rw [isExported]
  · intro other distinct
    rw [exports?_add, if_neg distinct]

theorem symbol?_importing :
    ∃ exported, (((empty {}).add (.defining "lib.py")).add (.importing "user.py" "lib")).symbol?
        "user.f" = some exported ∧ exported.name = "f" ∧ exported.kind = .function ∧
      (((empty {}).add (.defining "lib.py")).add (.importing "user.py" "lib")).exports? "lib" =
        ((empty {}).add (.defining "lib.py")).exports? "lib" := by
  obtain ⟨found, same⟩ := symbol?_add ((empty {}).add (.defining "lib.py"))
    (.importing "user.py" "lib")
  obtain ⟨symbol, exported, isThere, isName, isKind, isFound⟩ := found (by decide +kernel) "f" 0
    (by decide) (by decide) (by decide +kernel)
  have isFunction : ((Model.ofModule
      ((ProjectFile.importing "user.py" "lib").around ((empty {}).add (.defining "lib.py")))
      (ProjectFile.importing "user.py" "lib").module').table.get? 0).map (·.kind) =
        some .function := by decide +kernel
  rw [isThere] at isFunction
  exact ⟨exported, isFound [] (by simp), isName, isKind.trans (Option.some.inj isFunction),
    same "lib" (by decide +kernel)⟩

end Project

end PyStatic
