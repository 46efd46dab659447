import Mathlib.Data.List.Nodup
import Mathlib.Data.List.Pairwise
import PyStatic.Proofs.Binding.Advances
import PyStatic.Proofs.Binding.ScopeGrowth

/-!
Contract: identifiers with identities of their own keep the notes of a module apart.
-/

namespace PyStatic

open List Note

namespace Survey

variable {survey before after : Survey} {notes : List Note} {assigned : InstanceAttribute}

theorem instanceAttributes_note (survey : Survey) (note : Note)
    (mem : assigned ∈ (survey.note note).instanceAttributes) :
    assigned ∈ survey.instanceAttributes ∨
      ∃ scope value, note = .receiver scope value assigned.attr := by
  cases note with
  | receiver scope value attr =>
    change assigned ∈ (survey.addInstanceAttribute scope value attr).instanceAttributes at mem
    rcases survey.addInstanceAttribute_eq scope value attr with same | ⟨_, _, _, same⟩
    · rw [same] at mem
      exact .inl mem
    · rw [same] at mem
      rcases mem_append.mp mem with mem | mem
      · exact .inl mem
      · obtain rfl := mem_singleton.mp mem
        exact .inr ⟨scope, value, rfl⟩
  | declared scope isGlobal names =>
    obtain ⟨_, same⟩ := survey.addDeclarations_eq scope isGlobal names
    change assigned ∈ (survey.addDeclarations scope isGlobal names).instanceAttributes at mem
    rw [same] at mem
    exact .inl mem
  | member value => cases value <;> exact .inl mem
  | _ => exact .inl mem

theorem Run.appended {α : Type} {view : Survey → List α} {part : Note → List α}
    (notes_view : ∀ survey note, view (survey.note note) = view survey ++ part note)
    (run : Run before notes after) : view after = view before ++ notes.flatMap part := by
  induction run with
  | nil => exact (append_nil _).symm
  | cons _ _ ih =>
    rw [ih, notes_view, flatMap_cons, append_assoc]

theorem Run.mem_instanceAttributes (run : Run before notes after)
    (mem : assigned ∈ after.instanceAttributes) :
    assigned ∈ before.instanceAttributes ∨
      ∃ scope value, .receiver scope value assigned.attr ∈ notes := by
  induction run with
  | nil => exact .inl mem
  | cons _ _ ih =>
    rcases ih mem with earlier | ⟨scope, value, isLater⟩
    · rcases instanceAttributes_note _ _ earlier with earlier | ⟨scope, value, rfl⟩
      · exact .inl earlier
      · exact .inr ⟨scope, value, mem_cons_self⟩
    · exact .inr ⟨scope, value, mem_cons_of_mem _ isLater⟩

def Names (survey : Survey) (node : NodeId) : Prop :=
  (∃ reference ∈ survey.reads, reference.node = node) ∨
    ∃ binding ∈ survey.bindings, binding.node = node

/-- No node is spoken of twice, unless the same is said of it. -/
structure Apart (survey : Survey) : Prop where
  read_eq : ∀ first ∈ survey.reads, ∀ second ∈ survey.reads, first.node = second.node →
    first = second
  binding_eq : ∀ first ∈ survey.bindings, ∀ second ∈ survey.bindings,
    first.node = second.node → first = second
  spares : survey.Spares survey.Names

end Survey

namespace Note

variable {note : Note}

theorem node_mem_ids_of_reads {reference : Reference} (mem : reference ∈ note.reads) :
    reference.node ∈ note.ids := by
  cases note with
  | read _ _
  | assigned =>
    obtain rfl := mem_singleton.mp mem
    exact mem_singleton_self _
  | _ => cases mem

theorem node_mem_ids_of_bindings {tree : ScopeTree} {binding : Binding}
    (mem : binding ∈ note.bindings tree)
    (noWildcard : ∀ scope mark module' exports, note ≠ .wildcard scope mark module' exports) :
    binding.node ∈ note.ids := by
  cases note with
  | bound _ _ _ _
  | assigned =>
    obtain rfl := mem_singleton.mp mem
    exact mem_singleton_self _
  | wildcard scope mark module' exports => exact absurd rfl (noWildcard scope mark module' exports)
  | _ => cases mem

theorem id_mem_ids_of_declarations {declaration : Declaration}
    (mem : declaration ∈ note.declarations) : declaration.name.id ∈ note.ids := by
  cases note with
  | declared =>
    obtain ⟨name, isName, rfl⟩ := mem_map.mp mem
    exact mem_map_of_mem isName
  | _ => cases mem

theorem exists_member_of_attributeReads {read : AttributeRead} (mem : read ∈ note.attributeReads) :
    ∃ value, note = .member value read.attr := by
  cases note with
  | member value =>
    refine ⟨value, ?_⟩
    cases value with
    | name =>
      obtain rfl := mem_singleton.mp mem
      rfl
    | member =>
      obtain rfl := mem_singleton.mp mem
      rfl
    | _ => cases mem
  | _ => cases mem

theorem eq_of_mem_ids {notes : List Note} {nodes : Note → List NodeId}
    (distinct : (notes.flatMap nodes).Nodup) {first second : Note} (isFirst : first ∈ notes)
    (isSecond : second ∈ notes) {id : NodeId} (ofFirst : id ∈ nodes first)
    (ofSecond : id ∈ nodes second) : first = second := by
  have : Std.Symm (Function.onFun List.Disjoint nodes) :=
    ⟨fun _ _ disjoint _ ofLeft ofRight => disjoint ofRight ofLeft⟩
  by_contra different
  exact (nodup_flatMap.mp distinct).2.forall isFirst isSecond different ofFirst ofSecond

end Note

namespace Survey

variable {survey before after : Survey} {notes : List Note}

structure Noted (survey : Survey) (notes : List Note) : Prop where
  reads : survey.reads = notes.flatMap Note.reads
  declarations : survey.declarations = notes.flatMap Note.declarations
  attributeReads : survey.attributeReads = notes.flatMap Note.attributeReads
  bindings : survey.bindings = notes.flatMap (Note.bindings survey.scopes)
  assigned_noted : ∀ assigned ∈ survey.instanceAttributes,
    ∃ scope value, .receiver scope value assigned.attr ∈ notes

theorem Run.noted {tree : ScopeTree} (run : Run { empty with scopes := tree } notes after)
    (nested : tree.Nested) : after.Noted notes where
  reads := run.appended fun survey note => (survey.appends_note note).reads
  declarations := run.appended fun survey note => (survey.appends_note note).declarations
  attributeReads := run.appended fun survey note => (survey.appends_note note).attributeReads
  bindings := run.bindings_eq ⟨nested, nofun, nofun, nofun⟩
  assigned_noted _ mem := (run.mem_instanceAttributes mem).resolve_left not_mem_nil

variable {around : Surroundings} {scope next : ScopeId} {items : List ScopeItem}
variable {identifiers : List Identifier} {visited : List Visited} {bindings : Bindings}

theorem ne_wildcard
    (account : Note.Account around scope next notes items identifiers visited bindings)
    (noProject : around.project = none) {note : Note} (mem : note ∈ notes) :
    ∀ scope mark module' exports, note ≠ .wildcard scope mark module' exports := by
  rintro scope mark module' exports rfl
  exact account.wildcards scope mark module' exports mem noProject

theorem Noted.exists_read (noted : survey.Noted notes) {reference : Reference}
    (mem : reference ∈ survey.reads) :
    ∃ note ∈ notes, reference.node ∈ note.ids ∧ reference ∈ note.reads := by
  rw [noted.reads] at mem
  obtain ⟨note, isNote, mem⟩ := mem_flatMap.mp mem
  exact ⟨note, isNote, node_mem_ids_of_reads mem, mem⟩

theorem Noted.exists_binding (noted : survey.Noted notes)
    (account : Note.Account around scope next notes items identifiers visited bindings)
    (noProject : around.project = none) {binding : Binding} (mem : binding ∈ survey.bindings) :
    ∃ note ∈ notes, binding.node ∈ note.ids ∧ binding ∈ note.bindings survey.scopes := by
  rw [noted.bindings] at mem
  obtain ⟨note, isNote, mem⟩ := mem_flatMap.mp mem
  have noWildcard := ne_wildcard account noProject isNote
  exact ⟨note, isNote, node_mem_ids_of_bindings mem noWildcard, mem⟩

theorem Noted.exists_of_names (noted : survey.Noted notes)
    (account : Note.Account around scope next notes items identifiers visited bindings)
    (noProject : around.project = none)
    {node : NodeId} (names : survey.Names node) :
    ∃ note ∈ notes, node ∈ note.ids ∧ (note.reads ≠ [] ∨ ∃ tree, note.bindings tree ≠ []) := by
  rcases names with ⟨reference, mem, rfl⟩ | ⟨binding, mem, rfl⟩
  · obtain ⟨note, isNote, ofNote, mem⟩ := noted.exists_read mem
    exact ⟨note, isNote, ofNote, .inl (ne_nil_of_mem mem)⟩
  · obtain ⟨note, isNote, ofNote, mem⟩ := noted.exists_binding account noProject mem
    exact ⟨note, isNote, ofNote, .inr ⟨_, ne_nil_of_mem mem⟩⟩

theorem Noted.spares (noted : survey.Noted notes)
    (account : Note.Account around scope next notes items identifiers visited bindings)
    (distinct : (notes.flatMap Note.ids).Nodup) {kept : NodeId → Prop}
    (named : ∀ node, kept node → ∃ note ∈ notes, node ∈ note.ids ∧
      (note.reads ≠ [] ∨ ∃ tree, note.bindings tree ≠ [])) : survey.Spares kept := by
  have notKept {note : Note} (isNote : note ∈ notes) {node : NodeId} (mem : node ∈ note.ids)
      (noRead : note.reads = []) (noBinding : ∀ tree, note.bindings tree = []) : ¬kept node := by
    intro isKept
    obtain ⟨other, isOther, mem', entries⟩ := named node isKept
    obtain rfl := eq_of_mem_ids distinct isNote isOther mem mem'
    rcases entries with reads | ⟨tree, bindings⟩
    · exact reads noRead
    · exact bindings (noBinding tree)
  have noMember : ∀ value attr, .member value attr ∈ notes → ¬kept attr.id :=
    fun value attr isNote => notKept isNote (mem_singleton_self _) rfl (fun _ => rfl)
  refine ⟨?_, ?_, ?_⟩
  · intro declaration mem
    rw [noted.declarations] at mem
    obtain ⟨note, isNote, mem⟩ := mem_flatMap.mp mem
    have ofNote := id_mem_ids_of_declarations mem
    cases note with
    | declared => exact notKept isNote ofNote rfl (fun _ => rfl)
    | _ => cases mem
  · intro read mem
    rw [noted.attributeReads] at mem
    obtain ⟨note, isNote, mem⟩ := mem_flatMap.mp mem
    obtain ⟨value, rfl⟩ := exists_member_of_attributeReads mem
    exact noMember value read.attr isNote
  · intro assigned mem
    obtain ⟨scope, value, isNote⟩ := noted.assigned_noted assigned mem
    exact noMember value assigned.attr (account.receivers scope value assigned.attr isNote)

theorem Noted.read_eq (noted : survey.Noted notes) (distinct : (notes.flatMap Note.ids).Nodup)
    {first second : Reference} (isFirst : first ∈ survey.reads) (isSecond : second ∈ survey.reads)
    (sameNode : first.node = second.node) : first = second := by
  obtain ⟨note, isNote, ofNote, isFirst⟩ := noted.exists_read isFirst
  obtain ⟨other, isOther, ofOther, isSecond⟩ := noted.exists_read isSecond
  obtain rfl := eq_of_mem_ids distinct isNote isOther ofNote (sameNode ▸ ofOther)
  cases note with
  | read _ _
  | assigned =>
    exact (mem_singleton.mp isFirst).trans (mem_singleton.mp isSecond).symm
  | _ => cases isFirst

theorem Noted.binding_eq (noted : survey.Noted notes)
    (account : Note.Account around scope next notes items identifiers visited bindings)
    (noProject : around.project = none)
    (distinct : (notes.flatMap Note.ids).Nodup) {first second : Binding}
    (isFirst : first ∈ survey.bindings) (isSecond : second ∈ survey.bindings)
    (sameNode : first.node = second.node) : first = second := by
  obtain ⟨note, isNote, ofNote, isFirst⟩ := noted.exists_binding account noProject isFirst
  obtain ⟨other, isOther, ofOther, isSecond⟩ := noted.exists_binding account noProject isSecond
  obtain rfl := eq_of_mem_ids distinct isNote isOther ofNote (sameNode ▸ ofOther)
  cases note with
  | bound _ _ _ _
  | assigned =>
    exact (mem_singleton.mp isFirst).trans (mem_singleton.mp isSecond).symm
  | wildcard scope mark module' exports =>
    exact absurd rfl (ne_wildcard account noProject isNote scope mark module' exports)
  | _ => cases isFirst

theorem Noted.apart (noted : survey.Noted notes)
    (account : Note.Account around scope next notes items identifiers visited bindings)
    (noProject : around.project = none)
    (distinct : (notes.flatMap Note.ids).Nodup) : survey.Apart where
  read_eq _ isFirst _ isSecond := noted.read_eq distinct isFirst isSecond
  binding_eq _ isFirst _ isSecond :=
    noted.binding_eq account noProject distinct isFirst isSecond
  spares := noted.spares account distinct fun _ => noted.exists_of_names account noProject

theorem Noted.visited_name (noted : survey.Noted notes)
    (account : Note.Account around scope next notes items identifiers visited bindings)
    (noProject : around.project = none)
    (distinct : (notes.flatMap Note.ids).Nodup) (plain : ∀ node ∈ visited, node.Plain)
    {name : Identifier} (mem : .expr (.name name) ∈ visited) :
    (∃ reference ∈ survey.reads, reference.node = name.id ∧ reference.name = name.text ∧
      ∀ binding ∈ survey.bindings, binding.node ≠ name.id) ∨
    ∃ binding ∈ survey.bindings, binding.node = name.id ∧ binding.name = name.text ∧
      ∀ reference ∈ survey.reads, reference.node ≠ name.id := by
  rcases account.names plain name mem with ⟨scope, isNote⟩ | ⟨scope, usage, isNote⟩
  · refine .inl ⟨⟨name.text, name.id, name.range, scope⟩, ?_, rfl, rfl, ?_⟩
    · rw [noted.reads]
      exact mem_flatMap.mpr ⟨_, isNote, mem_singleton_self _⟩
    · intro binding isBinding sameNode
      obtain ⟨other, isOther, ofOther, isBinding⟩ :=
        noted.exists_binding account noProject isBinding
      obtain rfl := eq_of_mem_ids distinct isNote isOther
        (mem_singleton_self _) (sameNode ▸ ofOther)
      cases isBinding
  · refine .inr ⟨_, noted.bindings ▸ mem_flatMap.mpr ⟨_, isNote, mem_cons_self⟩, rfl, rfl, ?_⟩
    intro reference isRead sameNode
    obtain ⟨other, isOther, ofOther, isRead⟩ := noted.exists_read isRead
    obtain rfl := eq_of_mem_ids distinct isNote isOther (mem_singleton_self _)
      (sameNode ▸ ofOther)
    cases isRead

theorem noted_ofModule (around : Surroundings) (module' : Module) :
    ∃ notes, (Survey.ofModule around module').Noted notes ∧
      Note.Account around moduleScope 1 notes (Stmt.itemsOfAll around module'.body)
        module'.identifiers module'.visited (Stmt.bindingsOfAll module'.body) := by
  have wellFormed := wellFormed_opened module'.mark
    (some (moduleName around.package around.file)) module'.body
  obtain ⟨opened, rfl, notes, run, account⟩ := Survey.ofModule_surveys around module'
  exact ⟨notes, run.noted wellFormed.nested, account⟩

theorem exists_noted (around : Surroundings) {module' : Module} (distinct : module'.DistinctIds) :
    ∃ notes, (Survey.ofModule around module').Noted notes ∧
      Note.Account around moduleScope 1 notes (Stmt.itemsOfAll around module'.body)
        module'.identifiers module'.visited (Stmt.bindingsOfAll module'.body) ∧
      (notes.flatMap Note.ids).Nodup := by
  obtain ⟨notes, noted, account⟩ := noted_ofModule around module'
  refine ⟨notes, noted, account, ?_⟩
  rw [nodup_iff_count_le_one]
  intro id
  exact Nat.le_trans (account.count_le id) (nodup_iff_count_le_one.mp distinct id)

end Survey

end PyStatic
