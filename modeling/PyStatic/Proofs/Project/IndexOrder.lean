import PyStatic.Project.Index
import Mathlib.Data.List.Nodup

/-!
Contract: how the order of modules bears on what indexing leaves.

After the first pass every module that takes nothing from the project holds its final exports. So in
the second pass a module whose exports are settled by such modules is indexed alike in any order.
-/

namespace PyStatic

open List Resolution

variable {first second : Surroundings}

/-- The module exports the same in every project. -/
def ProjectFile.Independent (settings : Settings) (source : ProjectFile) : Prop :=
  ∀ project : Project, project.settings = settings →
    source.exports project = source.exports (.empty settings)

namespace Project

/-- Independent modules have their final exports. -/
structure Grounded (settings : Settings) (sources : List ProjectFile) (project : Project) :
    Prop where
  settings_eq : project.settings = settings
  exports_eq : ∀ source ∈ sources, source.Independent settings →
    project.exports? source.name = some (source.exports (.empty settings))

end Project

/-- Once independent modules have their final exports, so has this one when it is indexed. -/
def ProjectFile.Shallow (settings : Settings) (sources : List ProjectFile) (source : ProjectFile) :
    Prop :=
  ∀ first second : Project, first.Grounded settings sources → second.Grounded settings sources →
    source.exports first = source.exports second

theorem ProjectFile.Independent.shallow {settings : Settings} {source : ProjectFile}
    (independent : source.Independent settings) (sources : List ProjectFile) :
    source.Shallow settings sources := by
  intro first second isFirst isSecond
  rw [independent first isFirst.settings_eq, independent second isSecond.settings_eq]

namespace Project

variable {project : Project} {source : ProjectFile} {sources : List ProjectFile}

@[simp] theorem settings_add (project : Project) (source : ProjectFile) :
    (project.add source).settings = project.settings :=
  rfl

theorem exports?_add (project : Project) (source : ProjectFile) (name : String) :
    (project.add source).exports? name =
      if name = source.name then some (source.exports project) else project.exports? name := by
  unfold exports? add
  rw [Std.ExtTreeMap.getElem?_insert]
  simp only [Std.compare_eq_iff_eq, @eq_comm _ name]

theorem settings_pass (project : Project) (sources : List ProjectFile) :
    (sources.foldl add project).settings = project.settings := by
  induction sources generalizing project with
  | nil => rfl
  | cons _ _ ih =>
    rw [foldl_cons, ih, settings_add]

theorem exports?_pass_of_not_mem (project : Project) {name : String}
    (other : name ∉ sources.map (·.name)) :
    (sources.foldl add project).exports? name = project.exports? name := by
  induction sources generalizing project with
  | nil => rfl
  | cons _ _ ih =>
    rw [map_cons, mem_cons, not_or] at other
    rw [foldl_cons, ih _ other.2, exports?_add, if_neg other.1]

theorem hasModule_pass (project : Project) (sources : List ProjectFile) (name : String) :
    (sources.foldl add project).hasModule name ↔
      name ∈ sources.map (·.name) ∨ project.hasModule name := by
  induction sources generalizing project with
  | nil => simp
  | cons first _ ih =>
    rw [foldl_cons, ih, hasModule, exports?_add, map_cons, mem_cons]
    by_cases same : name = first.name
    · simp [same]
    · simp [same, hasModule]

theorem exports?_pass {holds : Project → Prop} (distinct : (sources.map (·.name)).Nodup)
    (keeps : ∀ project, ∀ source ∈ sources, holds project → holds (project.add source))
    (start : holds project) (isIn : source ∈ sources) {exported : List Export}
    (same : ∀ project, holds project → source.exports project = exported) :
    (sources.foldl add project).exports? source.name = some exported := by
  induction sources generalizing project with
  | nil => exact absurd isIn (not_mem_nil)
  | cons first _ ih =>
    rw [map_cons, nodup_cons] at distinct
    rw [foldl_cons]
    rcases mem_cons.mp isIn with rfl | later
    · rw [exports?_pass_of_not_mem _ distinct.1, exports?_add, if_pos rfl, same project start]
    · refine ih distinct.2 (fun project source isIn => ?_)
        (keeps project first (mem_cons_self ..) start) later
      exact keeps project source (mem_cons_of_mem first isIn)

variable {settings : Settings}

theorem grounded_pass (distinct : (sources.map (·.name)).Nodup) :
    (sources.foldl add (.empty settings)).Grounded settings sources where
  settings_eq := settings_pass _ _
  exports_eq := by
    intro source isIn independent
    have keeps : ∀ project : Project, ∀ source ∈ sources, project.settings = settings →
        (project.add source).settings = settings := fun _ _ _ same => same
    exact exports?_pass distinct keeps rfl isIn independent

theorem Grounded.add (distinct : (sources.map (·.name)).Nodup)
    (grounded : project.Grounded settings sources) (isIn : source ∈ sources) :
    (project.add source).Grounded settings sources where
  settings_eq := grounded.settings_eq
  exports_eq := by
    intro other otherIn independent
    rw [exports?_add]
    by_cases sameName : other.name = source.name
    · have same : other = source := inj_on_of_nodup_map distinct otherIn isIn sameName
      rw [if_pos sameName, ← same, independent project grounded.settings_eq]
    · rw [if_neg sameName]
      exact grounded.exports_eq other otherIn independent

theorem exports?_addAll (distinct : (sources.map (·.name)).Nodup) (isIn : source ∈ sources)
    (shallow : source.Shallow settings sources) (grounded : project.Grounded settings sources) :
    (addAll (.empty settings) sources).exports? source.name = some (source.exports project) :=
  exports?_pass distinct (fun _ _ isIn grounded => grounded.add distinct isIn)
    (grounded_pass distinct) isIn (fun _ others => shallow _ _ others grounded)

theorem hasModule_addAll {name : String} :
    (addAll (.empty settings) sources).hasModule name ↔ name ∈ sources.map (·.name) := by
  rw [addAll, hasModule_pass, hasModule_pass]
  simp [empty, hasModule, exports?]

theorem ext {first second : Project} (modules : first.modules = second.modules)
    (settings : first.settings = second.settings) : first = second := by
  cases first
  cases second
  cases modules
  cases settings
  rfl

theorem Grounded.of_perm {others : List ProjectFile} (perm : sources.Perm others)
    (grounded : project.Grounded settings sources) : project.Grounded settings others :=
  ⟨grounded.settings_eq, fun source isIn => grounded.exports_eq source (perm.mem_iff.mpr isIn)⟩

/-- In any order, modules settled by independent modules have the same exports. -/
theorem addAll_eq_of_perm (settings : Settings) (sources others : List ProjectFile)
    (perm : sources.Perm others) (distinct : (sources.map (·.name)).Nodup) :
    (∀ name, (addAll (.empty settings) sources).hasModule name =
      (addAll (.empty settings) others).hasModule name) ∧
    (∀ source ∈ sources, source.Shallow settings sources →
      (addAll (.empty settings) sources).exports? source.name =
        (addAll (.empty settings) others).exports? source.name) ∧
    ((∀ source ∈ sources, source.Shallow settings sources) →
      addAll (.empty settings) sources = addAll (.empty settings) others) := by
  have distinctOthers : (others.map (·.name)).Nodup := (perm.map _).nodup_iff.mp distinct
  have sameModules : ∀ name, (addAll (.empty settings) sources).hasModule name =
      (addAll (.empty settings) others).hasModule name := by
    intro name
    rw [Bool.eq_iff_iff, hasModule_addAll, hasModule_addAll, (perm.map _).mem_iff]
  have sameExports : ∀ source ∈ sources, source.Shallow settings sources →
      (addAll (.empty settings) sources).exports? source.name =
        (addAll (.empty settings) others).exports? source.name := by
    intro source isIn shallow
    have grounded : (sources.foldl add (.empty settings)).Grounded settings sources :=
      grounded_pass distinct
    have shallowOthers : source.Shallow settings others := fun first second isFirst isSecond =>
      shallow first second (isFirst.of_perm perm.symm) (isSecond.of_perm perm.symm)
    rw [exports?_addAll distinct isIn shallow grounded,
      exports?_addAll distinctOthers (perm.mem_iff.mp isIn) shallowOthers
        (grounded.of_perm perm)]
  refine ⟨sameModules, sameExports, fun allShallow => ?_⟩
  have sameTables : (addAll (.empty settings) sources).modules =
      (addAll (.empty settings) others).modules := by
    apply Std.ExtTreeMap.ext_getElem?
    intro name
    by_cases isIn : name ∈ sources.map (·.name)
    · obtain ⟨source, isSource, rfl⟩ := List.mem_map.mp isIn
      exact sameExports source isSource (allShallow source isSource)
    · have absent : ∀ {project : Project}, ¬ project.hasModule name →
          project.modules[name]? = none := by
        intro project notThere
        rwa [hasModule, Option.isSome_iff_ne_none, not_not] at notThere
      rw [absent (mt hasModule_addAll.mp isIn),
        absent (mt hasModule_addAll.mp (mt (perm.map _).mem_iff.mpr isIn))]
  have sameSettings : (addAll (.empty settings) sources).settings =
      (addAll (.empty settings) others).settings := by
    rw [addAll, addAll, settings_pass, settings_pass, settings_pass, settings_pass]
  exact Project.ext sameTables sameSettings

end Project

/-! ## What a module takes from the project

The project bears on a module only where imports are surveyed and where their symbols are made. -/

structure BindingOrigin.MadeAlike (origin : BindingOrigin) (first second : Surroundings) :
    Prop where
  pushed : ∀ scope path name table, Merging.pushSymbol first scope path name table origin =
    Merging.pushSymbol second scope path name table origin
  extended : ∀ id table, Merging.extend first id origin table =
    Merging.extend second id origin table

theorem Merging.add_congr {binding : Binding} (alike : binding.origin.MadeAlike first second)
    (scope : ScopeId) (path name : String) (merging : Merging) :
    merging.add first scope path name binding = merging.add second scope path name binding := by
  unfold Merging.add
  simp only [alike.pushed, alike.extended]

theorem Resolution.ofBindings_congr {survey : Survey}
    (alike : ∀ binding ∈ survey.bindings, binding.origin.MadeAlike first second) :
    ofBindings first survey = ofBindings second survey := by
  have sameName : ∀ (tree : ScopeTree) (scope : ScopeId) (bindings : List Binding)
      (resolution : Resolution) (name : String), (∀ binding ∈ bindings, binding ∈ survey.bindings) →
      resolution.bindName first tree scope bindings name =
        resolution.bindName second tree scope bindings name := by
    intro tree scope bindings resolution name within
    unfold bindName
    have sameMerging := foldl_ext (Merging.add first scope (tree.pathOf scope) name)
      (Merging.add second scope (tree.pathOf scope) name) ⟨resolution, [], none⟩
      (l := bindings.filter (·.name == name)) (fun merging binding isIn =>
        Merging.add_congr (alike binding (within binding (mem_of_mem_filter isIn))) _ _ _ _)
    simp only [sameMerging]
  have sameScope : bindScope first survey = bindScope second survey := by
    funext resolution scope
    unfold bindScope
    apply foldl_ext
    intro resolution name _
    exact sameName _ _ _ _ _ fun binding isIn => mem_of_mem_filter isIn
  rw [ofBindings, ofBindings, sameScope]

namespace ProjectFile

def around (source : ProjectFile) (project : Project) : Surroundings :=
  ⟨source.package, source.file, some project, project.settings⟩

theorem exports_congr {source : ProjectFile} {first second : Project}
    (sameSettings : first.settings = second.settings)
    (sameSurvey : Survey.ofModule (source.around first) source.module' =
      Survey.ofModule (source.around second) source.module')
    (alike : ∀ binding ∈ (Survey.ofModule (source.around first) source.module').bindings,
      binding.origin.MadeAlike (source.around first) (source.around second)) :
    source.exports first = source.exports second := by
  have sameResolution : Model.resolve (source.around first)
      (Survey.ofModule (source.around first) source.module') =
      Model.resolve (source.around second)
        (Survey.ofModule (source.around first) source.module') := by
    unfold Model.resolve
    rw [ofBindings_congr alike]
    simp only [around, sameSettings]
  have sameModel : Model.ofModule (source.around first) source.module' =
      Model.ofModule (source.around second) source.module' := by
    simp only [Model.ofModule, ← sameSurvey, sameResolution]
    simp only [around, sameSettings]
  simp only [around] at sameModel
  simp only [exports, sameModel]

end ProjectFile

theorem Project.instance?_of_function {project : Project} {table : SymbolTable} {fqn : String}
    {name : String} {ownFqn : Option String} {info : FunctionInfo}
    (found : project.symbol? fqn = some (.function name ownFqn info)) :
    project.instance? ⟨table, ∅⟩ fqn =
      some (SymbolPool.push ⟨table, ∅⟩ (.fresh name ownFqn (.function info.detached) none)) := by
  have deep : project.depthFor (.function name ownFqn info) =
      (project.depthFor (.function name ownFqn info) - 1) + 1 := by
    refine (Nat.sub_add_cancel ?_).symm
    unfold Project.depthFor
    exact Nat.mul_pos (by omega) (by omega)
  have noEntry : ∀ reuse, Project.registered? ⟨table, ∅⟩ reuse (some fqn) = none := by
    simp [Project.registered?]
  simp only [Project.instance?, found, Project.instanceOf, noEntry]
  rw [deep]
  rfl

namespace ProjectFile

def defining (file : String) : ProjectFile :=
  let mark (id : NodeId) : Mark := ⟨id, ⟨id, id⟩⟩
  ⟨⟨mark 0, [.functionDef ⟨mark 1, ⟨mark 2, "f"⟩, [], none, [], false⟩ []]⟩, "", file⟩

def importing (file origin : String) : ProjectFile :=
  let mark (id : NodeId) : Mark := ⟨id, ⟨id, id⟩⟩
  let imported : FromImport :=
    ⟨some ⟨⟨2, 2⟩, [⟨mark 2, origin⟩]⟩, 0, [⟨mark 3, ⟨⟨4, 4⟩, [⟨mark 4, "f"⟩]⟩, none⟩], false⟩
  ⟨⟨mark 0, [.simple (mark 1) (.fromImport imported)]⟩, "", file⟩

end ProjectFile

/-- Of a chain of imports two passes find the end only in some orders. -/
theorem Project.not_addAll_eq_of_perm :
    ¬ ∀ (settings : Settings) (sources others : List ProjectFile), sources.Perm others →
      (sources.map (·.name)).Nodup →
      addAll (.empty settings) sources = addAll (.empty settings) others := by
  intro same
  have sameTables := same {} [.importing "a.py" "b", .importing "b.py" "c", .defining "c.py"]
    [.defining "c.py", .importing "b.py" "c", .importing "a.py" "b"]
    (List.reverse_perm _).symm (by decide +kernel)
  have sameKinds := congrArg (fun project => (project.exports? "a").map (·.map (·.kind))) sameTables
  revert sameKinds
  decide +kernel

namespace ProjectFile

theorem independent_defining (settings : Settings) :
    (defining "lib.py").Independent settings := by
  intro project same
  refine exports_congr same rfl ?_
  intro binding isIn
  have onlyBinding : (Survey.ofModule ((defining "lib.py").around project)
      (defining "lib.py").module').bindings =
      [⟨0, "f", 2, ⟨2, 2⟩, .functionDeclaration, .functionDef 1⟩] := rfl
  rw [onlyBinding, mem_singleton] at isIn
  rw [isIn]
  exact ⟨fun _ _ _ _ => rfl, fun _ _ => rfl⟩

theorem symbol?_lib_f (project : Project) :
    project.symbol? "lib.f" =
      (project.exports? "lib").bind fun exports => exports.find? (·.name == "f") := by
  have onlyCut : Project.cuts (Dotted.parts "lib.f") = [(["lib"], ["f"])] := by decide +kernel
  have lib : Dotted.ofParts ["lib"] = "lib" := by decide +kernel
  rw [Project.symbol?, onlyCut]
  simp only [findSome?_cons, findSome?_nil, Project.symbolIn?, lib, Project.descend, foldl_nil]
  cases (project.exports? "lib").bind fun exports => exports.find? (·.name == "f") <;> rfl

theorem survey_importing {project : Project} {exported : Export}
    (found : project.symbol? "lib.f" = some exported) :
    Survey.ofModule ((importing "user.py" "lib").around project)
        (importing "user.py" "lib").module' =
      Survey.addBinding 0 .imported (.importedName "lib.f") ⟨⟨4, ⟨4, 4⟩⟩, "f"⟩
        ((Survey.empty.openScope .topLevel none ⟨0, ⟨0, 0⟩⟩ (some (moduleName "" "user.py"))
          (importing "user.py" "lib").module'.body none).noteNode 0 1) := by
  have joined : Dotted.join "lib" "f" = "lib.f" := by decide +kernel
  have origin : importOrigin (some project) (Dotted.join "lib" "f") = .importedName "lib.f" := by
    simp [importOrigin, joined, found]
  rw [← origin]
  rfl

theorem shallow_importing :
    (importing "user.py" "lib").Shallow {} [importing "user.py" "lib", defining "lib.py"] := by
  intro first second isFirst isSecond
  have isFunction : (((defining "lib.py").exports (.empty {})).find? (·.name == "f")).map
      (·.kind) = some .function := by decide +kernel
  obtain ⟨exported, found, kind⟩ := Option.map_eq_some_iff.mp isFunction
  have lookup : ∀ {project : Project},
      project.Grounded {} [importing "user.py" "lib", defining "lib.py"] →
      project.symbol? "lib.f" = some exported := by
    intro project grounded
    have libName : (defining "lib.py").name = "lib" := by decide +kernel
    have indexed := grounded.exports_eq (defining "lib.py") (by simp) (independent_defining {})
    rw [libName] at indexed
    rw [symbol?_lib_f, indexed]
    exact found
  cases exported with
  | function name =>
    refine exports_congr (isFirst.settings_eq.trans isSecond.settings_eq.symm)
      ((survey_importing (lookup isFirst)).trans (survey_importing (lookup isSecond)).symm) ?_
    intro binding isIn
    rw [survey_importing (lookup isFirst)] at isIn
    have imported : binding.origin = .importedName "lib.f" := by
      simp [Survey.addBinding, Survey.noteNode, Survey.openScope, Survey.empty] at isIn
      rw [isIn]
    rw [imported]
    refine ⟨fun scope path name table => ?_, fun _ _ => rfl⟩
    simp only [Merging.pushSymbol, SymbolTable.pushImported, around, Option.bind_some,
      Project.instance?_of_function (lookup isFirst),
      Project.instance?_of_function (lookup isSecond)]
  | _ => simp [Export.kind] at kind

end ProjectFile

theorem Project.addAll_importing_comm :
    [ProjectFile.importing "user.py" "lib", .defining "lib.py"].Perm
        [.defining "lib.py", .importing "user.py" "lib"] ∧
      ([ProjectFile.importing "user.py" "lib", .defining "lib.py"].map (·.name)).Nodup ∧
      addAll (.empty {}) [.importing "user.py" "lib", .defining "lib.py"] =
        addAll (.empty {}) [.defining "lib.py", .importing "user.py" "lib"] := by
  have perm : [ProjectFile.importing "user.py" "lib", .defining "lib.py"].Perm
      [.defining "lib.py", .importing "user.py" "lib"] := List.Perm.swap ..
  have distinct : ([ProjectFile.importing "user.py" "lib", .defining "lib.py"].map
      (·.name)).Nodup := by decide +kernel
  refine ⟨perm, distinct, (addAll_eq_of_perm {} _ _ perm distinct).2.2 ?_⟩
  intro source isIn
  rcases List.mem_cons.mp isIn with rfl | isIn
  · exact ProjectFile.shallow_importing
  · rw [List.mem_singleton.mp isIn]
    exact (ProjectFile.independent_defining {}).shallow _

end PyStatic
