import FlatAbi.Proofs.Naming.Book
import FlatAbi.Proofs.Text.Identifiers

/-!
Symbols of functions as C identifiers. Some of their parts are taken over with characters that C may not have.
-/

namespace FlatAbi

open Emit Text Bool String Wrapper Function Option

variable {job : Job} {draft : Draft}

/-! ### Identifiers -/

theorem Chars.exists_replace_cons (part replacement : List Char) (c : Char) (cs : List Char)
    (apart : part.isPrefixOf (c :: cs) = false) : ∃ others, replace part replacement (c :: cs) = c :: others := by
  unfold replace splitOn splitFrom
  rw [apart, if_neg Bool.false_ne_true]
  cases splitFrom part 0 cs with
  | nil => exact ⟨_, rfl⟩
  | cons piece rest =>
    cases rest with
    | nil => exact ⟨_, rfl⟩
    | cons next others => exact ⟨_, rfl⟩

namespace Text

/-- A text of characters that identifiers have. -/
def isPlain (s : String) : Bool :=
  s.toList.all isIdentifierChar

def startsWithDigit (s : String) : Bool :=
  s.toList.head?.any Char.isDigit

theorem isDigit_of_isAlpha {c : Char} (alpha : c.isAlpha) : c.isDigit = false := by
  change (decide (c.val ≥ 65 ∧ c.val ≤ 90) || (decide (c.val ≥ 97) && decide (c.val ≤ 122))) = true at alpha
  change (decide (c.val ≥ 48) && decide (c.val ≤ 57)) = false
  simp only [or_eq_true, and_eq_true, decide_eq_true_eq, ge_iff_le, UInt32.le_iff_toNat_le] at alpha
  simp only [and_eq_false_iff, decide_eq_false_iff_not, ge_iff_le, UInt32.le_iff_toNat_le]
  change (65 ≤ c.toNat ∧ c.toNat ≤ 90) ∨ (97 ≤ c.toNat ∧ c.toNat ≤ 122) at alpha
  change ¬ 48 ≤ c.toNat ∨ ¬ c.toNat ≤ 57
  omega

theorem isIdentifier_iff (s : String) : isIdentifier s ↔ s ≠ "" ∧ isPlain s ∧ startsWithDigit s = false := by
  rw [Ne, ← toList_inj]
  unfold isIdentifier isPlain startsWithDigit
  cases s.toList with
  | nil => simp
  | cons c rest =>
    simp only [List.all_cons, List.head?_cons, any_some, isIdentifierChar, Char.isAlphanum, and_eq_true,
      or_eq_true]
    cases alpha : c.isAlpha with
    | true => simp [isDigit_of_isAlpha alpha]
    | false =>
      by_cases underscore : c = '_'
      · subst underscore
        simp
      · cases c.isDigit <;> simp [underscore]

theorem isPlain_append (first rest : String) : isPlain (first ++ rest) = (isPlain first && isPlain rest) := by
  simp [isPlain, toList_append]

theorem isPlain_flattenName (name : String) : isPlain (flattenName name) := by
  simp only [isPlain, flattenName, toList_ofList, List.all_map, List.all_eq_true]
  intro c _
  simp only [comp]
  split
  · assumption
  · decide

theorem startsWithDigit_flattenName {name : String} (digit : startsWithDigit name) :
    startsWithDigit (flattenName name) := by
  unfold startsWithDigit flattenName at *
  cases chars : name.toList with
  | nil =>
    rw [chars] at digit
    cases digit
  | cons c rest =>
    rw [chars, List.head?_cons, any_some] at digit
    have colon : ':' ≠ c := by
      rintro rfl
      cases digit
    have blank : c ≠ ' ' := by
      rintro rfl
      cases digit
    obtain ⟨others, same⟩ := Chars.exists_replace_cons [':', ':'] ['_'] c rest (by simp [List.isPrefixOf, colon])
    rw [same]
    simp [blank, isIdentifierChar, Char.isAlphanum, digit]

theorem isPlain_concat (parts : List String) : isPlain (concat parts) = parts.all isPlain := by
  induction parts with
  | nil => rfl
  | cons part rest ih =>
    change isPlain (part ++ concat rest) = _
    rw [isPlain_append, ih, List.all_cons]

/-- A text goes on with parts after underscores. -/
def chain (lead : String) (parts : List String) : String :=
  lead ++ concat (parts.map ("_" ++ ·))

theorem isPlain_chain (lead : String) (parts : List String) :
    isPlain (chain lead parts) = (isPlain lead && parts.all isPlain) := by
  have underscore (part : String) : isPlain ("_" ++ part) = isPlain part := by
    rw [isPlain_append, show isPlain "_" = true by decide, Bool.true_and]
  simp only [chain, isPlain_append, isPlain_concat, List.all_map, comp_def, underscore]

theorem startsWithDigit_chain (lead : String) (parts : List String) :
    startsWithDigit (chain lead parts) = startsWithDigit lead := by
  unfold startsWithDigit chain
  rw [toList_append]
  cases lead.toList with
  | nil => cases parts <;> simp [concat, toList_append]
  | cons c cs => rfl

theorem isIdentifier_chain {lead : String} {parts : List String} (more : parts ≠ []) :
    isIdentifier (chain lead parts) = (isPlain lead && !startsWithDigit lead && parts.all isPlain) := by
  have nonempty : chain lead parts ≠ "" := by
    obtain ⟨part, rest, rfl⟩ := List.exists_cons_of_ne_nil more
    rw [Ne, ← toList_inj]
    simp [chain, concat, toList_append]
  rw [Bool.eq_iff_iff, isIdentifier_iff, isPlain_chain, startsWithDigit_chain]
  simp only [and_eq_true, not_eq_true']
  exact ⟨fun ⟨_, ⟨plain, parts⟩, first⟩ => ⟨⟨plain, first⟩, parts⟩,
    fun ⟨⟨plain, first⟩, parts⟩ => ⟨nonempty, ⟨plain, parts⟩, first⟩⟩

end Text

/-! ### Codes of overloads -/

/-- What the code of a level takes over as it is. -/
def Declarator.takenOver (d : Declarator) : List String :=
  match d.level with
  | .other code => [code]
  | _ => []

theorem Declarator.isPlain_overloadCode (d : Declarator) : isPlain d.overloadCode = d.takenOver.all isPlain := by
  unfold overloadCode takenOver
  cases d.level with
  | pointer | lvalueReference | rvalueReference => decide
  | function arguments =>
    change isPlain "f"
    decide
  | array bound | memberPointer owner =>
    rw [isPlain_append, isPlain_flattenName, Bool.and_true]
    exact show isPlain _ = true by decide
  | qualifier words =>
    rw [isPlain_concat, List.all_map, List.all_nil, List.all_eq_true]
    intro word _
    simp only [comp]
    split <;> decide
  | other code => simp

namespace SymbolTable

variable (table : SymbolTable)

/-- What the code of a base name takes over as it is: the name of an enum, and the first letter of a builtin type. -/
def takenFromBase (resolved : CxxType) (scope : String) : List String :=
  if scalarTypedefs.contains resolved.base then []
  else if resolved.isBuiltin then [ofList (resolved.base.toList.take 1)]
  else if table.isEnumBased resolved scope then [lastComponent (normalizeName resolved.base)]
  else []

theorem isPlain_baseCode (resolved : CxxType) (scope : String) :
    isPlain (table.baseCode resolved scope) = (table.takenFromBase resolved scope).all isPlain := by
  unfold baseCode takenFromBase
  split
  next scalar =>
    have plain : ∀ name ∈ scalarTypedefs, isPlain name := by decide
    rw [plain _ (List.contains_iff_mem.mp scalar), List.all_nil]
  · split
    · simp
    · split
      · rw [isPlain_append, show isPlain "e" = true by decide]
        simp
      · rw [isPlain_flattenName, List.all_nil]

def takenOver (t : CxxType) (scope : String) : List String :=
  let resolved := table.resolve t scope
  let shown := if resolved.isMemberPointer then resolved.withOutermost .pointer else resolved
  if shown.isPointer && shown.pop.isFunction then []
  else shown.declarators.flatMap Declarator.takenOver ++ table.takenFromBase shown scope

theorem isPlain_overloadCode (t : CxxType) (scope : String) :
    isPlain (table.overloadCode t scope) = (table.takenOver t scope).all isPlain := by
  unfold overloadCode takenOver
  dsimp only
  generalize (if (table.resolve t scope).isMemberPointer then (table.resolve t scope).withOutermost .pointer
    else table.resolve t scope) = shown
  split
  · decide
  · rw [isPlain_append, isPlain_baseCode, isPlain_concat, List.all_map, List.all_append, List.all_flatMap]
    simp only [comp_def, Declarator.isPlain_overloadCode]

end SymbolTable

/-! ### The parts of a symbol -/

namespace Naming

/-- What a symbol begins with: the namespace of the configuration, the name of the module, a flattened namespace of the
tree, or a text of the tree as it is. -/
inductive Lead where
  | configured
  | moduleName
  | scope (flat : String)
  | taken (text : String)

namespace Lead

def text (config : Config) : Lead → String
  | .configured => config.globalPart?.getD ""
  | .moduleName => config.moduleName
  | .scope flat => Text.flattenName flat
  | .taken text => text

/-- What begins a symbol can begin an identifier, if the names of the configuration flatten to identifiers. -/
def isClean (config : Config) : Lead → Bool
  | .configured => true
  | .moduleName => Text.isPlain config.moduleName
  | .scope flat => !Text.startsWithDigit (Text.flattenName flat)
  | .taken text => Text.isPlain text && !Text.startsWithDigit text

end Lead

/-- A name stands behind the beginning of a symbol, unless it is the beginning. -/
def Lead.behind : Lead → String → List String
  | .taken _, _ => []
  | _, name => [name]

/-- The namespace of the configuration comes before what is there without one. -/
def configuredOr (config : Config) (otherwise : Lead) : Lead :=
  if config.globalPart?.getD "" != "" then .configured else otherwise

def isGlobalAccessor (c : Callable) : Bool :=
  c.owner.isNone && (c.role == .globalGet || c.role == .globalSet)

def leadOf (config : Config) (c : Callable) : Lead :=
  match c.owner with
  | some owner =>
    if owner.namespaceName != "" && owner.usesNamespace then .scope owner.namespaceName
    else configuredOr config (.taken owner.decl.symbol)
  | none =>
    if isGlobalAccessor c then configuredOr config (.taken c.symName)
    else
      match c.site.scope? with
      | some scope =>
        if scope.kind == .namespaceDecl && scope.usesNamespace && Text.flattenName scope.qualifiedName != "" then
          .scope scope.qualifiedName
        else configuredOr config .moduleName
      | none => configuredOr config .moduleName

def memberParts (c : Callable) : List String :=
  match c.role with
  | .constructor => ["new"]
  | .copyConstructor => ["copy"]
  | .destructor => ["delete"]
  | .memberGet | .staticGet => [c.symName, "get"]
  | .memberSet | .staticSet => [c.symName, "set"]
  | _ => [c.symName]

/-- A callable that is told apart by the types of its parameters. -/
def isSuffixed (c : Callable) : Bool :=
  c.overloaded && c.role != .copyConstructor && !isGlobalAccessor c

def suffixParts (c : Callable) (codes : List String) : List String :=
  if isSuffixed c then (if c.constOverloaded then ["const"] else []) ++ codes else []

def followers (config : Config) (c : Callable) (codes : List String) : List String :=
  match c.owner with
  | some owner => (leadOf config c).behind owner.decl.symbol ++ memberParts c ++ suffixParts c codes
  | none =>
    match c.role with
    | .globalGet => (leadOf config c).behind c.symName ++ ["get"]
    | .globalSet => (leadOf config c).behind c.symName ++ ["set"]
    | _ => c.symName :: suffixParts c codes

end Naming

namespace Text

theorem chain_nil (lead : String) : chain lead [] = lead := by
  simp [chain, concat]

theorem chain_cons (lead part : String) (rest : List String) :
    chain lead (part :: rest) = chain (lead ++ "_" ++ part) rest := by
  simp [chain, concat, append_assoc]

theorem chain_single (lead part : String) : chain lead [part] = lead ++ "_" ++ part := by
  rw [chain_cons, chain_nil]

theorem chain_append (lead : String) (first rest : List String) :
    chain lead (first ++ rest) = chain (chain lead first) rest := by
  induction first generalizing lead with
  | nil => rw [List.nil_append, chain_nil]
  | cons part others ih => rw [List.cons_append, chain_cons, ih, chain_cons]

end Text

namespace Naming

variable {config : Config} {c : Callable}

theorem chain_configuredOr (config : Config) (name : String) :
    chain ((configuredOr config (.taken name)).text config) ((configuredOr config (.taken name)).behind name) =
      if config.globalPart?.getD "" != "" then config.globalPart?.getD "" ++ "_" ++ name else name := by
  unfold configuredOr
  split
  · exact chain_single _ _
  · exact chain_nil _

theorem proxyName_eq_chain {owner : Site} (owned : c.owner = some owner) :
    proxyName config owner =
      chain ((leadOf config c).text config) ((leadOf config c).behind owner.decl.symbol) := by
  unfold proxyName proxyPart? leadOf
  rw [owned]
  by_cases spaced : (owner.namespaceName != "" && owner.usesNamespace)
  · simp only [if_pos spaced]
    exact (chain_single _ _).symm
  · simp only [if_neg spaced, chain_configuredOr]
    cases config.globalPart?.getD "" != "" with
    | true => rfl
    | false => rfl

theorem text_configuredOr_moduleName (config : Config) :
    (configuredOr config .moduleName).text config = orElse (config.globalPart?.getD "") config.moduleName := by
  unfold configuredOr orElse
  rw [bne]
  cases config.globalPart?.getD "" == "" with
  | true => rfl
  | false => rfl

theorem freePart_eq_text (owned : c.owner = none) (free : isGlobalAccessor c = false) :
    freePart config c.site = (leadOf config c).text config := by
  have unscoped : orElse "" ((configuredOr config .moduleName).text config) =
      (configuredOr config .moduleName).text config := rfl
  unfold freePart scopePart? leadOf
  rw [owned, free, ← text_configuredOr_moduleName]
  dsimp only
  cases c.site.scope? with
  | none => exact unscoped
  | some scope =>
    dsimp only
    cases scope.kind == .namespaceDecl && scope.usesNamespace with
    | false => exact unscoped
    | true =>
      rw [Bool.true_and, if_pos rfl, getD_some, orElse, bne]
      cases flattenName scope.qualifiedName == "" with
      | true => rfl
      | false => rfl

theorem memberSymbol_eq_chain (proxy : String) (c : Callable) : memberSymbol proxy c = chain proxy (memberParts c) := by
  unfold memberSymbol memberParts
  cases c.role <;> simp only [chain_cons, chain_nil, append_assoc] <;> rfl

theorem append_suffixOf_eq_chain {c : Callable} (free : isGlobalAccessor c = false) (symbol : String)
    (codes : List String) :
    symbol ++ suffixOf c codes = chain symbol (suffixParts c codes) := by
  unfold suffixOf suffixParts isSuffixed overloadSuffix
  rw [free, Bool.not_false, Bool.and_true]
  split
  · cases c.constOverloaded <;> simp [chain, concat]
  · rw [chain_nil, append_empty]

theorem wrapperName_eq_chain (config : Config) (c : Callable) (codes : List String) :
    wrapperName config c codes = chain ((leadOf config c).text config) (followers config c codes) := by
  unfold wrapperName followers
  cases owned : c.owner with
  | some owner =>
    have free : isGlobalAccessor c = false := by simp [isGlobalAccessor, owned]
    dsimp only
    rw [append_suffixOf_eq_chain free, memberSymbol_eq_chain, proxyName_eq_chain owned, chain_append, chain_append]
  | none =>
    have accesses (accessor : isGlobalAccessor c) : leadOf config c = configuredOr config (.taken c.symName) := by
      unfold leadOf
      rw [owned, accessor]
      rfl
    dsimp only
    cases role : c.role with
    | globalGet =>
      dsimp only
      rw [accesses (by simp [isGlobalAccessor, owned, role]), chain_append, chain_configuredOr,
        chain_single, @append_assoc _ "_" "get"]
      rfl
    | globalSet =>
      dsimp only
      rw [accesses (by simp [isGlobalAccessor, owned, role]), chain_append, chain_configuredOr,
        chain_single, @append_assoc _ "_" "set"]
      rfl
    | _ =>
      have free : isGlobalAccessor c = false := by simp [isGlobalAccessor, role]
      dsimp only
      rw [append_suffixOf_eq_chain free, freePart_eq_text owned free, chain_cons]

/-! ### Symbols that are identifiers -/

/-- What the symbol of a callable takes over from the tree as it is, after its beginning. -/
def takenOver (table : SymbolTable) (c : Callable) : List String :=
  let shown := match c.owner, c.role with
    | some _, .constructor | some _, .copyConstructor | some _, .destructor => []
    | _, _ => [c.symName]
  c.owner.toList.map (·.decl.symbol) ++ shown ++
    if isSuffixed c then (c.parameters.filterMap (·.type)).flatMap (table.takenOver · c.site.scopeName) else []

/-- The symbol of a callable begins like an identifier, and all that it takes over has the characters of one. -/
def isClean (config : Config) (table : SymbolTable) (c : Callable) : Bool :=
  (leadOf config c).isClean config && (takenOver table c).all Text.isPlain

theorem Lead.isClean_eq (named : isIdentifier (flattenName config.moduleName))
    (spaced : ∀ part ∈ config.globalPart?, isIdentifier part) (lead : Lead) :
    lead.isClean config = (isPlain (lead.text config) && !startsWithDigit (lead.text config)) := by
  cases lead with
  | configured =>
    unfold isClean text
    cases global : config.globalPart? with
    | none => rfl
    | some part =>
      obtain ⟨_, plain, start⟩ := (isIdentifier_iff part).mp (spaced part global)
      simp [plain, start]
  | moduleName =>
    unfold isClean text
    cases digit : startsWithDigit config.moduleName with
    | false => simp
    | true =>
      rw [isIdentifier_iff, startsWithDigit_flattenName digit] at named
      exact absurd named.2.2 (by decide)
  | scope name => simp [isClean, text, isPlain_flattenName]
  | taken text => rfl

theorem followers_ne_nil (config : Config) (c : Callable) (codes : List String) : followers config c codes ≠ [] := by
  unfold followers
  cases c.owner with
  | none => cases c.role <;> simp
  | some owner => cases role : c.role <;> simp [memberParts, role]

theorem all_suffixParts (table : SymbolTable) (c : Callable) :
    (suffixParts c (typeCodes table c)).all isPlain =
      (if isSuffixed c then (c.parameters.filterMap (·.type)).flatMap (table.takenOver · c.site.scopeName) else []).all
        isPlain := by
  have constant : (if c.constOverloaded then ["const"] else []).all isPlain := by
    cases c.constOverloaded <;> decide
  unfold suffixParts typeCodes
  split
  · rw [List.all_append, constant, Bool.true_and, List.all_map, List.all_flatMap]
    simp only [comp_def, SymbolTable.isPlain_overloadCode]
  · rfl

theorem eq_of_leadOf_eq_taken {text : String} (taken : leadOf config c = .taken text) :
    text = (c.owner.map (·.decl.symbol)).getD c.symName := by
  have configured {otherwise : Lead} (same : configuredOr config otherwise = .taken text) :
      otherwise = .taken text := by
    unfold configuredOr at same
    split at same
    · cases same
    · exact same
  unfold leadOf at taken
  split at taken
  next owner owned =>
    rw [owned]
    split at taken
    · cases taken
    · cases configured taken
      rfl
  next owned =>
    rw [owned]
    split at taken
    · cases configured taken
      rfl
    · split at taken
      · split at taken
        · cases taken
        · cases configured taken
      · cases configured taken

/-- A name that begins a symbol does not follow as well, but then it is plain already. -/
theorem all_behind {name : String} (clean : (leadOf config c).isClean config)
    (own : name = (c.owner.map (·.decl.symbol)).getD c.symName) :
    ((leadOf config c).behind name).all isPlain = isPlain name := by
  cases lead : leadOf config c with
  | configured | moduleName | scope => simp [Lead.behind]
  | taken text =>
    obtain rfl := own.trans (eq_of_leadOf_eq_taken lead).symm
    rw [lead, Lead.isClean, and_eq_true] at clean
    simp [Lead.behind, clean.1]

theorem all_followers {table : SymbolTable} (clean : (leadOf config c).isClean config) :
    (followers config c (typeCodes table c)).all isPlain = (takenOver table c).all isPlain := by
  have words : ["new", "copy", "delete", "get", "set"].all isPlain := by decide
  simp only [List.all_cons, List.all_nil, Bool.and_true, and_eq_true] at words
  unfold followers takenOver
  cases owned : c.owner with
  | some owner =>
    have behind : ((leadOf config c).behind owner.decl.symbol).all isPlain = isPlain owner.decl.symbol :=
      all_behind clean (by rw [owned]; rfl)
    dsimp only
    rw [List.all_append, List.all_append, behind, all_suffixParts, List.all_append, List.all_append]
    cases role : c.role <;> simp [memberParts, role, words]
  | none =>
    have behind : ((leadOf config c).behind c.symName).all isPlain = isPlain c.symName :=
      all_behind clean (by rw [owned]; rfl)
    cases role : c.role with
    | globalGet | globalSet =>
      dsimp only
      rw [List.all_append, behind]
      simp [isSuffixed, isGlobalAccessor, owned, role, words]
    | _ =>
      dsimp only
      rw [List.all_cons, all_suffixParts]
      simp

theorem isIdentifier_wrapperName (named : isIdentifier (flattenName config.moduleName))
    (spaced : ∀ part ∈ config.globalPart?, isIdentifier part) (table : SymbolTable) (c : Callable) :
    isIdentifier (wrapperName config c (typeCodes table c)) = isClean config table c := by
  rw [wrapperName_eq_chain, isIdentifier_chain (followers_ne_nil _ _ _), ← Lead.isClean_eq named spaced, isClean]
  cases clean : (leadOf config c).isClean config with
  | false => rfl
  | true => rw [all_followers clean]

end Naming

/-- Every function symbol of a run belongs to a callable that was offered under a valid name. Where the names of the
configuration flatten to identifiers, it is an identifier exactly if all that it takes over as it is allows that: the
names of classes, functions, variables and enums, and the start of a namespace or class. -/
theorem Module.functionSymbol_isIdentifier_iff (cxx : job.config.cplusplus)
    (named : Text.isIdentifier (Text.flattenName job.config.moduleName))
    (spaced : ∀ part ∈ job.config.globalPart?, Text.isIdentifier part) (ran : run job = .ok draft) (s : Symbol)
    (listed : s ∈ draft.symbols) (function : s.kind = .function) :
    ∃ site ∈ visited job, ∃ owner c symbol, Offers job site owner c ∧ isSymbolName c.symName ∧
      symbol = Naming.wrapperName job.config c (typeCodes (resolver job).table c) ∧
      s = symbolOf .function (.string symbol) c.site ∧
      (Text.isIdentifier symbol ↔ Naming.isClean job.config (resolver job).table c = true) := by
  obtain ⟨visits, chain, sites⟩ := exists_visits ran
  obtain ⟨site, visited, owner, c, codes, offers, valid, coded, same⟩ := chain.named.2.recorded s listed function
  rw [sites] at visited
  rw [codes_eq_typeCodes cxx coded] at same
  refine ⟨site, visited, owner, c, _, offers, valid, rfl, same, ?_⟩
  rw [Naming.isIdentifier_wrapperName named spaced]

/-- A module with a function of one letter, and one whose name has an accent. -/
def accentModule : Job where
  config := { givenModule := .string "m", givenNamespace := .string "a::b", exceptions := false }
  root := .root <| .mk (.named .moduleDecl "m")
    [ .mk (.named .functionDecl "f") [],
      .mk (.named .functionDecl "fé") [] ]
  typemaps := {}

theorem Module.functionSymbol_isIdentifier_iff_accentModule :
    ∃ draft site owner c, Module.run accentModule = .ok draft ∧ site ∈ visited accentModule ∧
      Offers accentModule site owner c ∧ symbolOf .function (.string "a_b_fé") c.site ∈ draft.symbols ∧
      Naming.isClean accentModule.config (resolver accentModule).table c = false := by
  have written : (Module.run accentModule).toOption.map (fun draft =>
      draft.symbols.map fun s => (decide (s.kind = .function), s.name.asString?)) =
        some [(true, some "a_b_f"), (true, some "a_b_fé")] := by
    decide +kernel
  obtain ⟨draft, ran, names⟩ := ok_of_toOption_map written
  obtain ⟨s, listed, same⟩ := List.mem_map.mp (names ▸ List.mem_cons_of_mem _ (List.mem_singleton_self _))
  obtain ⟨function, shown⟩ := Prod.mk.inj same
  obtain ⟨site, visited, owner, c, symbol, offers, valid, made, same, clean⟩ :=
    functionSymbol_isIdentifier_iff rfl (by decide) (by decide) ran s listed (of_decide_eq_true function)
  have named : symbol = "a_b_fé" := by
    rw [same] at shown
    exact Option.some.inj shown
  rw [named] at same clean
  refine ⟨draft, site, owner, c, ran, visited, offers, same ▸ listed, ?_⟩
  exact eq_false_iff.mpr fun isClean => absurd (clean.mpr isClean) (by decide)

/-- The check of names lets the letters of all scripts pass, so that a symbol need not be an identifier. -/
theorem Module.accentModule_symbols :
    (Module.run accentModule).toOption.map (fun draft =>
      draft.symbols.map fun s => (s.name.display, Text.isIdentifier s.name.display)) =
        some [("a_b_f", true), ("a_b_fé", false)] := by
  decide +kernel

end FlatAbi
