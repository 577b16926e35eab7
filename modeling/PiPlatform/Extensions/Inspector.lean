import PiPlatform.Extensions.Governor
import PiPlatform.Library.TreeWalk

/-! What the static inspection of an extension finds.

Each node of a syntax tree is checked for itself. An import is looked up by the name that is
bound, with its module where there is one: neither the module of a `from` nor the package of a
dotted name is looked up. Of `open` the second positional argument is the mode. `sees_iff` says
that a tree's banned nodes are all found exactly if they all have the forms that are looked
for. -/
namespace PiPlatform.Extensions.Inspector

open Library Library.Json

/-! ### Syntax -/

structure Alias where
  name : String
  asname : Option String

inductive Constant where
  | str (s : Text)
  /-- A number, a truth value, bytes, none or an ellipsis. -/
  | other

/-- The nodes of `ast` that are checked, with what is read of them; of the others the children.
A keyword without a name is a dictionary's. -/
inductive Node where
  | importNames (names : List Alias) (lineno : Nat)
  | importFrom (module : Option String) (names : List Alias) (level lineno : Nat)
  | call (func : Node) (args : List Node) (keywords : List (Option String × Node)) (lineno : Nat)
  | name (id : String) (lineno : Nat)
  | attr (value : Node) (name : String) (lineno : Nat)
  | constant (value : Constant)
  | other (children : List Node)

/-- `iter_child_nodes`, without those that have neither children nor checks. A `keyword` gives
way to its value, so a walk may come to a value earlier than `ast.walk` does. -/
def Node.children : Node → List Node
  | importNames _ _ => []
  | importFrom _ _ _ _ => []
  | call func args keywords _ => func :: args ++ keywords.map Prod.snd
  | name _ _ => []
  | attr value _ _ => [value]
  | constant _ => []
  | other children => children

mutual

/-- The nodes of a tree. -/
def Node.size : Node → Nat
  | .call func args keywords _ => func.size + sizes args + keywordSizes keywords + 1
  | .attr value _ _ => value.size + 1
  | .other children => sizes children + 1
  | _ => 1

def sizes : List Node → Nat
  | [] => 0
  | node :: nodes => node.size + sizes nodes

def keywordSizes : List (Option String × Node) → Nat
  | [] => 0
  | (_, value) :: keywords => value.size + keywordSizes keywords

end

theorem sizes_eq (nodes : List Node) : sizes nodes = (nodes.map Node.size).sum := by
  induction nodes with
  | nil => rfl
  | cons node nodes ih => rw [sizes, ih, List.map_cons, List.sum_cons]

theorem keywordSizes_eq (keywords : List (Option String × Node)) :
    keywordSizes keywords = ((keywords.map Prod.snd).map Node.size).sum := by
  induction keywords with
  | nil => rfl
  | cons keyword keywords ih =>
    rw [keywordSizes, ih, List.map_cons, List.map_cons, List.sum_cons]

def ast : Forest Node where
  children := Node.children
  size := Node.size
  smaller node := by
    cases node with
    | call func args keywords lineno =>
      rw [Node.size, Node.children, List.map_append, List.sum_append, List.map_cons,
        List.sum_cons, ← sizes_eq, ← keywordSizes_eq]
      exact Nat.lt_succ_self _
    | attr value name lineno => exact Nat.lt_succ_self _
    | other children =>
      rw [Node.size, Node.children, ← sizes_eq]
      exact Nat.lt_succ_self _
    | _ => exact Nat.succ_pos 0

/-! ### Checks -/

inductive Severity where
  | critical | high
  deriving DecidableEq

structure Finding where
  rule : String
  severity : Severity
  detail : Text
  filePath : String
  lineNumber : Nat

def dangerousImports : List String :=
  ["subprocess", "os.system", "socket", "urllib.request", "http.client", "requests", "ftplib",
    "smtplib", "eval", "exec", "compile", "__import__", "importlib", "ctypes", "mmap",
    "multiprocessing", "threading", "concurrent.futures", "asyncio.subprocess", "tempfile",
    "shutil", "os.remove", "os.unlink", "os.rmdir", "os.makedirs", "os.mkdir", "open", "pickle",
    "marshal", "shelve", "yaml.load"]

def obfuscationPatterns : List String :=
  ["base64.b64decode", "base64.b64encode", "codecs.decode", "zlib.decompress", "gzip.decompress",
    "binascii.unhexlify", "string.translate", "chr(", "ord("]

def telemetryPatterns : List String :=
  ["telemetry", "tracking", "analytics", "metrics", "logs.send", "report_usage", "phone_home",
    "beacon"]

def sandboxEscapeAttrs : List String :=
  ["__subclasses__", "__mro__", "__bases__", "__base__", "__globals__", "__builtins__",
    "__import__", "__getattribute__", "__subclasshook__", "__code__", "__closure__",
    "func_globals", "f_globals", "f_builtins", "gi_frame", "cr_frame", "_module"]

def sandboxEscapeNames : List String :=
  ["__import__", "__builtins__", "globals", "vars", "eval", "exec", "compile"]

def startsWith (start s : String) : Bool := start.toList.isPrefixOf s.toList
def endsWith (stop s : String) : Bool := stop.toList.isSuffixOf s.toList

/-- `word in s` -/
def contains (word s : String) : Bool := decide (word.toList <:+: s.toList)

/-- The names of an attribute's chain, as far as it goes. -/
def parts : Node → List String
  | .attr value name _ => parts value ++ [name]
  | .name id _ => [id]
  | _ => []

def getCallName : Node → Option String
  | .name id _ => some id
  | .attr value name _ => some (".".intercalate (parts value ++ [name]))
  | _ => none

/-- An inspector: what the policy bans, `str.lower`, and the file. -/
structure StaticCapabilityInspector where
  policyBannedImports : List String
  lower : String → String
  filePath : String

/-- What a check adds: a finding, and a classification. -/
abbrev Added := Finding × CapabilityClassification

namespace StaticCapabilityInspector
variable (I : StaticCapabilityInspector)

def addFinding (rule : String) (severity : Severity) (detail : Text) (lineno : Nat)
    (classification : CapabilityClassification) : List Added :=
  [(⟨rule, severity, detail, I.filePath, lineno⟩, classification)]

def isBanned (name : String) : Bool :=
  name ∈ dangerousImports || name ∈ I.policyBannedImports

def checkImports : Node → List Added
  | .importNames names lineno => names.flatMap fun a =>
    if I.isBanned a.name then
      I.addFinding "dangerous_import" .critical (ofString ("Banned import: " ++ a.name)) lineno
        .policyViolation
    else []
  | .importFrom module names _ lineno => names.flatMap fun a =>
    let name := module.getD "" ++ "." ++ a.name
    if I.isBanned name then
      I.addFinding "dangerous_import_from" .critical (ofString ("Banned import: " ++ name)) lineno
        .policyViolation
    else []
  | _ => []

/-- Findings in the name of a call. -/
def checkCalls : Node → List Added
  | .call func _ _ lineno =>
    match getCallName func with
    | none => []
    | some funcName =>
      if funcName = "" then []
      else
        (if obfuscationPatterns.any (fun p => endsWith p funcName || funcName = p) then
          I.addFinding "obfuscation_indicator" .high
            (ofString ("Obfuscation pattern: " ++ funcName)) lineno .telemetryRisk else []) ++
        (if telemetryPatterns.any (fun t => contains t (I.lower funcName)) then
          I.addFinding "telemetry_indicator" .high
            (ofString ("Telemetry pattern: " ++ funcName)) lineno .telemetryRisk else []) ++
        (if ["socket", "connect", "urlopen", "get", "post", "send"].any
            (fun n => contains n funcName) then
          I.addFinding "network_access" .critical
            (ofString ("Network call: " ++ funcName)) lineno .replayUnsafe else []) ++
        (if contains "subprocess" funcName || contains "Popen" funcName ||
            contains "system" funcName then
          I.addFinding "subprocess_spawn" .critical
            (ofString ("Subprocess call: " ++ funcName)) lineno .rejected else []) ++
        (if funcName ∈ ["eval", "exec", "compile"] then
          I.addFinding "dynamic_execution" .critical
            (ofString ("Dynamic execution: " ++ funcName)) lineno .rejected else [])
  | _ => []

def checkEvalExec : Node → List Added
  | .call func _ _ lineno =>
    match getCallName func with
    | none => []
    | some funcName =>
      if funcName ∈ ["eval", "exec", "compile"] then
        I.addFinding "dynamic_execution_direct" .critical
          (ofString ("Direct " ++ funcName ++ "() call detected")) lineno .rejected
      else []
  | _ => []

/-- `any(c in mode for c in "wax+")` -/
def writes (mode : Text) : Bool := (ofString "wax+").any fun c => mode.contains c

/-- An `open` by its mode, and the other operations by name. -/
def checkFileOperations : Node → List Added
  | .call func args _ lineno =>
    match getCallName func with
    | none => []
    | some funcName =>
      let writeOps := ["open", "os.remove", "os.unlink", "shutil.rmtree", "shutil.move",
        "os.rename"]
      if funcName ≠ "" && writeOps.any (fun w => startsWith w funcName || funcName = w) then
        if funcName = "open" ∧ 2 ≤ args.length then
          match (args[1]? : Option Node) with
          | some (.constant (.str mode)) =>
            if writes mode then
              I.addFinding "filesystem_mutation" .critical (ofString "File write mode: " ++ mode)
                lineno .replayUnsafe
            else []
          | _ => []
        else if funcName ≠ "open" then
          I.addFinding "filesystem_mutation" .critical
            (ofString ("Filesystem mutation: " ++ funcName)) lineno .replayUnsafe
        else []
      else []
  | _ => []

def checkThreading : Node → List Added
  | .call func _ _ lineno =>
    match getCallName func with
    | none => []
    | some funcName =>
      if contains "Thread" funcName || contains "Process" funcName || contains "Pool" funcName ||
          contains "Executor" funcName then
        I.addFinding "thread_spawn" .high (ofString ("Thread/process spawn: " ++ funcName)) lineno
          .nonDeterministic
      else []
  | _ => []

def checkIndirectAccess : Node → List Added
  | .attr _ name lineno =>
    if name ∈ sandboxEscapeAttrs then
      I.addFinding "sandbox_escape_attribute" .critical
        (ofString ("Indirect-access escape attribute: " ++ name)) lineno .rejected
    else []
  | .name id lineno =>
    if id ∈ sandboxEscapeNames then
      I.addFinding "sandbox_escape_name" .critical
        (ofString ("Indirect-access escape primitive: " ++ id)) lineno .rejected
    else []
  | _ => []

/-- What is found for one node. -/
def checkNode (node : Node) : List Added :=
  I.checkImports node ++ I.checkCalls node ++ I.checkEvalExec node ++
    I.checkFileOperations node ++ I.checkThreading node ++ I.checkIndirectAccess node

/-- `_inspect_file`, of a file that was parsed. -/
def inspectTree (tree : Node) : List Added := (ast.walk [tree]).flatMap I.checkNode

/-! ### What is promised -/

/-- A dotted name is of a package. -/
def IsOf (name package : String) : Prop := ∃ rest, name = package ++ "." ++ rest

/-- The node imports what is banned, or writes. A relative import is of another module. -/
def Banned : Node → Prop
  | .importNames names _ => ∃ a ∈ names, ∃ m, I.isBanned m = true ∧ (a.name = m ∨ IsOf a.name m)
  | .importFrom module names level _ => level = 0 ∧ ∃ m ∈ module, I.isBanned m = true ∨
      ∃ a ∈ names, I.isBanned (m ++ "." ++ a.name) = true
  | .call (.name id _) args keywords _ => id = "open" ∧ ∃ mode, writes mode = true ∧
      (args[1]? = some (.constant (.str mode)) ∨
        (some "mode", .constant (.str mode)) ∈ keywords)
  | _ => False

/-- All that is banned in a tree is found, each for its node. -/
def Sees (tree : Node) : Prop :=
  ∀ node, ast.Within tree node → I.Banned node →
    ∃ added ∈ I.checkNode node, added.1.severity = .critical ∧ added ∈ I.inspectTree tree

/-- The node has the form that is looked for. -/
def Found : Node → Prop
  | .importNames names _ => ∃ a ∈ names, I.isBanned a.name = true
  | .importFrom module names _ _ => ∃ a ∈ names, I.isBanned (module.getD "" ++ "." ++ a.name) = true
  | .call _ args _ _ => ∃ mode, writes mode = true ∧ args[1]? = some (.constant (.str mode))
  | _ => False

/-! ### One node -/

section Nodes
variable {I}

/-- The node has a critical finding. -/
def Critical (I : StaticCapabilityInspector) (node : Node) : Prop :=
  ∃ added ∈ I.checkNode node, added.1.severity = .critical

/-- What is added on a condition is there if the condition is true. -/
theorem mem_addFinding_ite {p : Prop} [Decidable p] {rule : String} {severity : Severity}
    {detail : Text} {lineno : Nat} {classification : CapabilityClassification} {added : Added} :
    added ∈ (if p then I.addFinding rule severity detail lineno classification else []) ↔
      p ∧ added = (⟨rule, severity, detail, I.filePath, lineno⟩, classification) := by
  split
  · next h => simp [addFinding, h]
  · next h => simp [h]

theorem critical_importNames {names : List Alias} {lineno : Nat} :
    I.Critical (.importNames names lineno) ↔ I.Found (.importNames names lineno) := by
  have hnode : I.checkNode (.importNames names lineno) =
      I.checkImports (.importNames names lineno) := by
    simp only [checkNode, checkCalls, checkEvalExec, checkFileOperations, checkThreading,
      checkIndirectAccess, List.append_nil]
  rw [Critical, hnode, checkImports, Found]
  simp only [List.mem_flatMap, mem_addFinding_ite]
  constructor
  · rintro ⟨added, ⟨a, ha, hbanned, -⟩, -⟩
    exact ⟨a, ha, hbanned⟩
  · rintro ⟨a, ha, hbanned⟩
    exact ⟨_, ⟨a, ha, hbanned, rfl⟩, rfl⟩

theorem critical_importFrom {module : Option String} {names : List Alias} {level lineno : Nat} :
    I.Critical (.importFrom module names level lineno) ↔
      I.Found (.importFrom module names level lineno) := by
  have hnode : I.checkNode (.importFrom module names level lineno) =
      I.checkImports (.importFrom module names level lineno) := by
    simp only [checkNode, checkCalls, checkEvalExec, checkFileOperations, checkThreading,
      checkIndirectAccess, List.append_nil]
  rw [Critical, hnode, checkImports, Found]
  simp only [List.mem_flatMap, mem_addFinding_ite]
  constructor
  · rintro ⟨added, ⟨a, ha, hbanned, -⟩, -⟩
    exact ⟨a, ha, hbanned⟩
  · rintro ⟨a, ha, hbanned⟩
    exact ⟨_, ⟨a, ha, hbanned, rfl⟩, rfl⟩

section Open
variable {line lineno : Nat} {args : List Node} {keywords : List (Option String × Node)}

/-- The name of `open` is none of those that are critical by themselves. -/
theorem high_of_checkCalls_open {added : Added}
    (h : added ∈ I.checkCalls (.call (.name "open" line) args keywords lineno)) :
    added.1.severity = .high := by
  have hcalls : ["socket", "connect", "urlopen", "get", "post", "send"].any
      (fun n => contains n "open") = false := by decide +kernel
  have hprocess : (contains "subprocess" "open" || contains "Popen" "open" ||
      contains "system" "open") = false := by decide +kernel
  have hdynamic : "open" ∉ ["eval", "exec", "compile"] := by decide
  have hname : ¬ "open" = "" := by decide
  simp only [checkCalls, getCallName, if_neg hname, hcalls, hprocess, if_neg hdynamic,
    Bool.false_eq_true, if_false, List.append_nil, List.mem_append, mem_addFinding_ite] at h
  rcases h with ⟨-, rfl⟩ | ⟨-, rfl⟩ <;> rfl

theorem mem_checkFileOperations_open {added : Added} :
    added ∈ I.checkFileOperations (.call (.name "open" line) args keywords lineno) ↔
      ∃ mode, args[1]? = some (.constant (.str mode)) ∧ writes mode = true ∧
        added = (⟨"filesystem_mutation", .critical, ofString "File write mode: " ++ mode,
          I.filePath, lineno⟩, .replayUnsafe) := by
  have hops : ("open" ≠ "" && ["open", "os.remove", "os.unlink", "shutil.rmtree", "shutil.move",
      "os.rename"].any (fun w => startsWith w "open" || "open" = w)) = true := by decide +kernel
  simp only [checkFileOperations, getCallName, hops, if_true, true_and]
  by_cases hlength : 2 ≤ args.length
  · rw [if_pos hlength]
    cases hmode : (args[1]? : Option Node) with
    | none => simp
    | some node =>
      cases node with
      | constant value =>
        cases value with
        | str mode =>
          simp only [mem_addFinding_ite, Option.some.injEq, Node.constant.injEq,
            Constant.str.injEq, exists_eq_left']
        | other => simp
      | _ => simp
  · have hnone : (args[1]? : Option Node) = none := List.getElem?_eq_none (by omega)
    simp [hnone]

theorem critical_open : I.Critical (.call (.name "open" line) args keywords lineno) ↔
    I.Found (.call (.name "open" line) args keywords lineno) := by
  have heval : I.checkEvalExec (.call (.name "open" line) args keywords lineno) = [] := by
    have hdynamic : "open" ∉ ["eval", "exec", "compile"] := by decide
    simp only [checkEvalExec, getCallName, if_neg hdynamic]
  have hthread : I.checkThreading (.call (.name "open" line) args keywords lineno) = [] := by
    have hnone : (contains "Thread" "open" || contains "Process" "open" ||
        contains "Pool" "open" || contains "Executor" "open") = false := by decide +kernel
    simp only [checkThreading, getCallName, hnone, Bool.false_eq_true, if_false]
  have hmem : ∀ added : Added,
      added ∈ I.checkNode (.call (.name "open" line) args keywords lineno) ↔
        added ∈ I.checkCalls (.call (.name "open" line) args keywords lineno) ∨
        added ∈ I.checkFileOperations (.call (.name "open" line) args keywords lineno) := by
    intro added
    rw [checkNode, heval, hthread]
    simp only [checkImports, checkIndirectAccess, List.nil_append, List.append_nil,
      List.mem_append]
  constructor
  · rintro ⟨added, hadded, hcritical⟩
    rcases (hmem added).mp hadded with hcalls | hfile
    · rw [high_of_checkCalls_open hcalls] at hcritical
      cases hcritical
    · obtain ⟨mode, hmode, hwrites, -⟩ := mem_checkFileOperations_open.mp hfile
      exact ⟨mode, hwrites, hmode⟩
  · rintro ⟨mode, hwrites, hmode⟩
    refine ⟨(⟨"filesystem_mutation", .critical, ofString "File write mode: " ++ mode,
      I.filePath, lineno⟩, .replayUnsafe), (hmem _).mpr (.inr ?_), rfl⟩
    exact mem_checkFileOperations_open.mpr ⟨mode, hmode, hwrites, rfl⟩

end Open

/-- A banned node has a critical finding exactly if it has a form that is looked for. -/
theorem critical_iff {node : Node} (h : I.Banned node) : I.Critical node ↔ I.Found node := by
  cases node with
  | importNames names lineno => exact critical_importNames
  | importFrom module names level lineno => exact critical_importFrom
  | call func args keywords lineno =>
    cases func with
    | name id line =>
      obtain ⟨rfl, -⟩ := h
      exact critical_open
    | _ => exact h.elim
  | _ => exact h.elim

end Nodes

/-- What is banned in a tree is found, all of it, exactly if it has the forms that are looked
for. -/
theorem sees_iff (tree : Node) : I.Sees tree ↔
    ∀ node, ast.Within tree node → I.Banned node → I.Found node := by
  refine forall₃_congr fun node hwithin hbanned => ?_
  rw [← critical_iff hbanned]
  constructor
  · rintro ⟨added, hadded, hcritical, -⟩
    exact ⟨added, hadded, hcritical⟩
  · rintro ⟨added, hadded, hcritical⟩
    have hwalk : node ∈ ast.walk [tree] :=
      (ast.mem_walk).mpr ⟨tree, List.mem_singleton_self _, hwithin⟩
    exact ⟨added, hadded, hcritical, List.mem_flatMap.mpr ⟨node, hwalk, hadded⟩⟩

/-! ### A `from` -/

/-- With no bans of a policy. -/
def plain : StaticCapabilityInspector := ⟨[], id, "plugin.py"⟩

/-- `from subprocess import Popen` -/
def fromSubprocess : Node := .other [.importFrom (some "subprocess") [⟨"Popen", none⟩] 0 1]

theorem not_sees_fromSubprocess : ¬ plain.Sees fromSubprocess := by
  intro h
  have hwithin : ast.Within fromSubprocess
      (.importFrom (some "subprocess") [⟨"Popen", none⟩] 0 1) :=
    .there (List.mem_singleton_self _) (.here _)
  obtain ⟨added, hadded, -⟩ := h _ hwithin ⟨rfl, "subprocess", rfl, .inl (by decide)⟩
  have hnone : plain.checkNode (.importFrom (some "subprocess") [⟨"Popen", none⟩] 0 1) = [] := by
    have hbanned : ¬ plain.isBanned ("subprocess" ++ "." ++ "Popen") = true := by decide +kernel
    simp only [checkNode, checkImports, checkCalls, checkEvalExec, checkFileOperations,
      checkThreading, checkIndirectAccess, List.flatMap_cons, Option.getD_some, if_neg hbanned,
      List.flatMap_nil, List.append_nil]
  rw [hnone] at hadded
  cases hadded

end StaticCapabilityInspector

end PiPlatform.Extensions.Inspector
