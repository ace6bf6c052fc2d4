import GameScript.Analysis.Reduce
import GameScript.Proofs.Analysis.Lookups

/-!
# Expressions and bases

The analysis of expressions keeps what only the determination of bases can change.
-/

namespace GameScript.Analysis

variable {P : Session → Prop} {sub : Steps}

/-! ### Names -/

@[simp] theorem namesInScope_keeps : Keeps P namesInScope := by
  unfold namesInScope
  repeat' first | split | with_reducible refine forIn_keeps (fun _ _ => ?_) _ _ |
    with_reducible refine Keeps.bind ?_ fun _ => ?_ | dsimp only
  all_goals simp [*]

@[simp] theorem isScriptPath_keeps (path : Text) : Keeps P (isScriptPath path) := by
  unfold isScriptPath
  repeat' first | split | with_reducible refine Keeps.bind ?_ fun _ => ?_ | dsimp only
  all_goals simp [*]

section

variable (hP : Elementary P)
include hP

@[simp] theorem checkInstanceUse_keeps (id : Ident) (f : Found) : Keeps P (checkInstanceUse id f) := by
  unfold checkInstanceUse
  repeat' first | split | with_reducible refine Keeps.bind ?_ fun _ => ?_ | dsimp only
  all_goals simp [*]

@[simp] theorem reduceEnumValue_keeps (id : Ident) (v : EnumValue) : Keeps P (reduceEnumValue id v) := by
  unfold reduceEnumValue
  repeat' first | split | with_reducible refine Keeps.bind ?_ fun _ => ?_ | dsimp only
  all_goals simp [*]

end

section

variable (hP : Elementary P) (hsub : sub.Keep P)
include hP hsub

@[simp] theorem globalClassInfo_keeps (id : Ident) (path : Text) :
    Keeps P (globalClassInfo sub id path) := by
  unfold globalClassInfo
  repeat' first | split | with_reducible refine Keeps.bind ?_ fun _ => ?_ | dsimp only
  all_goals simp [*]

@[simp] theorem autoloadInfo_keeps (id : Ident) (path : Text) : Keeps P (autoloadInfo sub id path) := by
  unfold autoloadInfo
  repeat' first | split | with_reducible refine Keeps.bind ?_ fun _ => ?_ | dsimp only
  all_goals simp [*]

@[simp] theorem globalInfo_keeps (id : Ident) (asBase : Bool) : Keeps P (globalInfo sub id asBase) := by
  unfold globalInfo
  repeat' first | split | with_reducible refine Keeps.bind ?_ fun _ => ?_ | dsimp only
  all_goals simp [*]

@[simp] theorem reduceMember_keeps (inner : DeclId) (id : Ident) (cs : List DeclId) :
    Keeps P (reduceMember sub inner id cs) := by
  induction cs with
  | nil => exact pure_keeps _
  | cons c cs ih =>
    unfold reduceMember
    repeat' first | split | with_reducible refine Keeps.bind ?_ fun _ => ?_ | dsimp only
    all_goals simp [*]

@[simp] theorem reduceIdent_keeps (id : Ident) (asBase : Bool) : Keeps P (reduceIdent sub id asBase) := by
  unfold reduceIdent
  repeat' first | split | with_reducible refine Keeps.bind ?_ fun _ => ?_ | dsimp only
  all_goals simp [*]

end

/-! ### Expressions -/

section

variable (hP : Elementary P)
include hP

@[simp] theorem checkKey_keeps (seen : List (Value × Nat)) (key : Expr) (v : Value) :
    Keeps P (checkKey seen key v) := by
  unfold checkKey
  repeat' first | split | with_reducible refine Keeps.bind ?_ fun _ => ?_ | dsimp only
  all_goals simp [*]

@[simp] theorem builtinAttribute_keeps (id : Ident) (base : StaticType) (b : BuiltinType) :
    Keeps P (builtinAttribute id base b) := by
  unfold builtinAttribute
  repeat' first | split | with_reducible refine Keeps.bind ?_ fun _ => ?_ | dsimp only
  all_goals simp [*]

@[simp] theorem enumAttribute_keeps (id : Ident) (base : StaticType) :
    Keeps P (enumAttribute id base) := by
  unfold enumAttribute
  repeat' first | split | with_reducible refine Keeps.bind ?_ fun _ => ?_ | dsimp only
  all_goals simp [*]

@[simp] theorem checkIndex_keeps (base : StaticType) (key : Expr) (b : BuiltinType) :
    Keeps P (checkIndex base key b) := by
  unfold checkIndex
  repeat' first | split | with_reducible refine Keeps.bind ?_ fun _ => ?_ | dsimp only
  all_goals simp [*]

@[simp] theorem indexInfo_keeps (span : Span) (x y : Expr) : Keeps P (indexInfo span x y) := by
  unfold indexInfo
  repeat' first | split | with_reducible refine Keeps.bind ?_ fun _ => ?_ | dsimp only
  all_goals simp [*]

@[simp] theorem unaryInfo_keeps (span : Span) (op : Operator) (x : Expr) :
    Keeps P (unaryInfo span op x) := by
  unfold unaryInfo
  repeat' first | split | with_reducible refine Keeps.bind ?_ fun _ => ?_ | dsimp only
  all_goals simp [*]

@[simp] theorem binaryInfo_keeps (span : Span) (written : BinaryOp) (x y : Expr) :
    Keeps P (binaryInfo span written x y) := by
  unfold binaryInfo
  repeat' first | split | with_reducible refine Keeps.bind ?_ fun _ => ?_ | dsimp only
  all_goals simp [*]

@[simp] theorem condInfo_keeps (span : Span) (yes cond no : Expr) :
    Keeps P (condInfo span yes cond no) := by
  unfold condInfo
  repeat' first | split | with_reducible refine Keeps.bind ?_ fun _ => ?_ | dsimp only
  all_goals simp [*]

@[simp] theorem typeTestInfo_keeps (span : Span) (x : Expr) (negated : Bool) (test : StaticType) :
    Keeps P (typeTestInfo span x negated test) := by
  unfold typeTestInfo
  repeat' first | split | with_reducible refine Keeps.bind ?_ fun _ => ?_ | dsimp only
  all_goals simp [*]

@[simp] theorem checkCast_keeps (span : Span) (x : Expr) (target : TypeSpec) :
    Keeps P (checkCast span x target) := by
  unfold checkCast
  repeat' first | split | with_reducible refine Keeps.bind ?_ fun _ => ?_ | dsimp only
  all_goals simp [*]

@[simp] theorem castInfo_keeps (span : Span) (x : Expr) (target : TypeSpec) :
    Keeps P (castInfo span x target) := by
  unfold castInfo
  repeat' first | split | with_reducible refine Keeps.bind ?_ fun _ => ?_ | dsimp only
  all_goals simp [*]

end

section

variable (hsub : sub.Keep P)
include hsub

@[simp] theorem reduceList_keeps (items : List Expr) : Keeps P (reduceList sub items) := by
  unfold reduceList
  repeat' first | split | with_reducible refine Keeps.bind ?_ fun _ => ?_ | dsimp only
  all_goals simp [*]

end

section

variable (hP : Elementary P) (hsub : sub.Keep P)
include hP hsub

@[simp] theorem reduceBase_keeps (x : Expr) : Keeps P (reduceBase sub x) := by
  unfold reduceBase
  repeat' first | split | with_reducible refine Keeps.bind ?_ fun _ => ?_ | dsimp only
  all_goals simp [*]

@[simp] theorem reduceEntries_keeps (seen : List (Value × Nat)) (es : List DictEntry) :
    Keeps P (reduceEntries sub seen es) := by
  induction es generalizing seen with
  | nil => exact pure_keeps _
  | cons e es ih =>
    unfold reduceEntries
    repeat' first | split | with_reducible refine Keeps.bind ?_ fun _ => ?_ | dsimp only
    all_goals simp [*]

@[simp] theorem reduceDict_keeps (entries : List DictEntry) : Keeps P (reduceDict sub entries) := by
  unfold reduceDict
  repeat' first | split | with_reducible refine Keeps.bind ?_ fun _ => ?_ | dsimp only
  all_goals simp [*]

@[simp] theorem objectAttribute_keeps (id : Ident) (base : StaticType) :
    Keeps P (objectAttribute sub id base) := by
  unfold objectAttribute
  repeat' first | split | with_reducible refine Keeps.bind ?_ fun _ => ?_ | dsimp only
  all_goals simp [*]

@[simp] theorem attributeOf_keeps (span : Span) (x : Expr) (id : Ident) :
    Keeps P (attributeOf sub span x id) := by
  unfold attributeOf
  repeat' first | split | with_reducible refine Keeps.bind ?_ fun _ => ?_ | dsimp only
  all_goals simp [*]

@[simp] theorem reduceDot_keeps (span : Span) (x : Expr) (id : Ident) :
    Keeps P (reduceDot sub span x id) := by
  unfold reduceDot
  repeat' first | split | with_reducible refine Keeps.bind ?_ fun _ => ?_ | dsimp only
  all_goals simp [*]

@[simp] theorem reduceAwait_keeps (span : Span) (x : Expr) : Keeps P (reduceAwait sub span x) := by
  unfold reduceAwait
  repeat' first | split | with_reducible refine Keeps.bind ?_ fun _ => ?_ | dsimp only
  all_goals simp [*]

@[simp] theorem reducePreload_keeps (path : Literal) : Keeps P (reducePreload sub path) := by
  unfold reducePreload
  dsimp only
  repeat' first | split | with_reducible refine Keeps.bind ?_ fun _ => ?_ | dsimp only
  all_goals simp [*]

@[simp] theorem reduceLambda_keeps (f : Func) : Keeps P (reduceLambda sub f) := by
  unfold reduceLambda
  repeat' first | split | with_reducible refine Keeps.bind ?_ fun _ => ?_ | dsimp only
  all_goals simp [*]

end

/-! ### Calls -/

@[simp] theorem calleeType_keeps (cls : DeclId) (f : Func) : Keeps P (calleeType cls f) := by
  unfold calleeType
  repeat' first | split | with_reducible refine Keeps.bind ?_ fun _ => ?_ | dsimp only
  all_goals simp [*]

@[simp] theorem builtinMethod_keeps (b : BuiltinType) (name : Text) : Keeps P (builtinMethod b name) := by
  unfold builtinMethod
  repeat' first | split | with_reducible refine Keeps.bind ?_ fun _ => ?_ | dsimp only
  all_goals simp [*]

@[simp] theorem nativeMethod_keeps (t : StaticType) (name : Text) : Keeps P (nativeMethod t name) := by
  unfold nativeMethod
  repeat' first | split | with_reducible refine Keeps.bind ?_ fun _ => ?_ | dsimp only
  all_goals simp [*]

@[simp] theorem functionNames_keeps (t : StaticType) : Keeps P (functionNames t) := by
  unfold functionNames
  repeat' first | split | with_reducible refine forIn_keeps (fun _ _ => ?_) _ _ |
    with_reducible refine Keeps.bind ?_ fun _ => ?_ | dsimp only
  all_goals simp [*]

@[simp] theorem staticCaller_keeps (base : StaticType) : Keeps P (staticCaller base) := by
  unfold staticCaller
  repeat' first | split | with_reducible refine Keeps.bind ?_ fun _ => ?_ | dsimp only
  all_goals simp [*]

section

variable (hP : Elementary P)
include hP

@[simp] theorem checkArgument_keeps (c : CallNode) (name : Text) (index : Nat) (param : StaticType) (arg : Expr) :
    Keeps P (checkArgument c name index param arg) := by
  unfold checkArgument
  repeat' first | split | with_reducible refine Keeps.bind ?_ fun _ => ?_ | dsimp only
  all_goals simp [*]

@[simp] theorem checkArgumentsFrom_keeps (c : CallNode) (name : Text) (i : Nat) (ps : List StaticType) (es : List Expr) :
    Keeps P (checkArgumentsFrom c name i ps es) := by
  induction ps generalizing i es with
  | nil => exact pure_keeps _
  | cons p ps ih =>
    cases es with
    | nil => exact pure_keeps _
    | cons e es =>
      unfold checkArgumentsFrom
      repeat' first | split | with_reducible refine Keeps.bind ?_ fun _ => ?_ | dsimp only
      all_goals simp [*]

@[simp] theorem checkArguments_keeps (c : CallNode) (name : Text) (f : FunctionType) :
    Keeps P (checkArguments c name f) := by
  unfold checkArguments
  repeat' first | split | with_reducible refine Keeps.bind ?_ fun _ => ?_ | dsimp only
  all_goals simp [*]

@[simp] theorem typedArguments_keeps (ps : List StaticType) (es : List Expr) :
    Keeps P (typedArguments ps es) := by
  induction ps generalizing es with
  | nil => exact pure_keeps _
  | cons p ps ih =>
    cases es with
    | nil => exact pure_keeps _
    | cons e es =>
      unfold typedArguments
      repeat' first | split | with_reducible refine Keeps.bind ?_ fun _ => ?_ | dsimp only
      all_goals simp [*]

@[simp] theorem checkConstructor_keeps (c : CallNode) (t : BuiltinType) :
    Keeps P (checkConstructor c t) := by
  unfold checkConstructor
  repeat' first | split | with_reducible refine forIn_keeps (fun _ _ => ?_) _ _ |
    with_reducible refine Keeps.bind ?_ fun _ => ?_ | dsimp only
  all_goals simp [*]

@[simp] theorem reduceConstructor_keeps (c : CallNode) (id : Ident) (t : BuiltinType) :
    Keeps P (reduceConstructor c id t) := by
  unfold reduceConstructor
  repeat' first | split | with_reducible refine Keeps.bind ?_ fun _ => ?_ | dsimp only
  all_goals simp [*]

@[simp] theorem reduceGlobalCall_keeps (c : CallNode) (id : Ident) (f : GlobalFunction) (discarded : Bool) :
    Keeps P (reduceGlobalCall c id f discarded) := by
  unfold reduceGlobalCall
  dsimp only
  repeat' first | split | with_reducible refine Keeps.bind ?_ fun _ => ?_ | dsimp only
  all_goals simp [*]

@[simp] theorem useSignal_keeps (x : Expr) : Keeps P (useSignal x) := by
  unfold useSignal
  repeat' first | split | with_reducible refine Keeps.bind ?_ fun _ => ?_ | dsimp only
  all_goals simp [*]

@[simp] theorem checkReceiver_keeps (c : CallNode) (base : StaticType) (name : Text) (isSelf : Bool) (f : FunctionType) :
    Keeps P (checkReceiver c base name isSelf f) := by
  unfold checkReceiver
  repeat' first | split | with_reducible refine Keeps.bind ?_ fun _ => ?_ | dsimp only
  all_goals simp [*]

@[simp] theorem checkResult_keeps (c : CallNode) (base : StaticType) (name : Text) (isDirect isConstructor root : Bool) (f : FunctionType) :
    Keeps P (checkResult c base name isDirect isConstructor root f) := by
  unfold checkResult
  repeat' first | split | with_reducible refine Keeps.bind ?_ fun _ => ?_ | dsimp only
  all_goals simp [*]

@[simp] theorem reduceFoundCall_keeps (c : CallNode) (base : StaticType) (name : Text) (isSelf isConstructor root : Bool) (f : FunctionType) :
    Keeps P (reduceFoundCall c base name isSelf isConstructor root f) := by
  unfold reduceFoundCall
  repeat' first | split | with_reducible refine Keeps.bind ?_ fun _ => ?_ | dsimp only
  all_goals simp [*]

end

section

variable (hP : Elementary P) (hsub : sub.Keep P)
include hP hsub

@[simp] theorem ensureBody_keeps (cls : DeclId) (f : Func) : Keeps P (ensureBody sub cls f) := by
  unfold ensureBody
  refine (note_keeps _).bind fun n => ?_
  split
  · exact pure_keeps _
  · refine owner_bind_keeps hP cls fun o => ((fileRecord_keeps o).keepsWith o).bind fun r => ?_
    split
    · exact (pure_keeps _).keepsWith o
    · exact onBehalfOf_keepsWith (inClass_keeps hP cls (resolveStoredBody_keeps hP hsub f))

@[simp] theorem lookupFunction_keeps (t : StaticType) (name : Text) :
    Keeps P (lookupFunction sub t name) := by
  unfold lookupFunction
  repeat' first | split | with_reducible refine Keeps.bind ?_ fun _ => ?_ | dsimp only
  all_goals simp [*]

@[simp] theorem lookupConstructor_keeps (c : CallNode) (base : StaticType) :
    Keeps P (lookupConstructor sub c base) := by
  unfold lookupConstructor
  repeat' first | split | with_reducible refine Keeps.bind ?_ fun _ => ?_ | dsimp only
  all_goals simp [*]

@[simp] theorem nonFunctionType_keeps (id : Ident) (base : StaticType) :
    Keeps P (nonFunctionType sub id base) := by
  unfold nonFunctionType
  repeat' first | split | with_reducible refine Keeps.bind ?_ fun _ => ?_ | dsimp only
  all_goals simp [*]

@[simp] theorem reportMissing_keeps (c : CallNode) (base : StaticType) (name : Text) (isSelf : Bool) :
    Keeps P (reportMissing sub c base name isSelf) := by
  unfold reportMissing
  extract_lets _ _ _ report _ search
  have hreport : ∀ r c isOther, Keeps P (report r c isOther) := by
    intro r c isOther
    dsimp only [report]
    repeat' first | split | with_reducible refine Keeps.bind ?_ fun _ => ?_ | dsimp only
    all_goals simp [*]
  clear_value report
  have hsearch : ∀ r, Keeps P (search r) := by
    intro r
    dsimp only [search]
    repeat' first | split | with_reducible refine Keeps.bind ?_ fun _ => ?_ | dsimp only
    all_goals simp [*]
  clear_value search
  repeat' first | split | with_reducible refine Keeps.bind ?_ fun _ => ?_ | dsimp only
  all_goals simp [*]

@[simp] theorem calledObject_keeps (c : CallNode) : Keeps P (calledObject sub c) := by
  unfold calledObject
  repeat' first | split | with_reducible refine Keeps.bind ?_ fun _ => ?_ | dsimp only
  all_goals simp [*]

@[simp] theorem reduceMethodCall_keeps (c : CallNode) (name : Text) (root : Bool) :
    Keeps P (reduceMethodCall sub c name root) := by
  unfold reduceMethodCall
  repeat' first | split | with_reducible refine Keeps.bind ?_ fun _ => ?_ | dsimp only
  all_goals simp [*]

@[simp] theorem reduceCall_keeps (root : Bool) (c : CallNode) : Keeps P (reduceCall sub root c) := by
  unfold reduceCall
  repeat' first | split | with_reducible refine Keeps.bind ?_ fun _ => ?_ | dsimp only
  all_goals simp [*]

end

/-! ### All expressions -/

section

variable (hP : Elementary P)
include hP

@[simp] theorem selfInfo_keeps (span : Span) : Keeps P (selfInfo span) := by
  unfold selfInfo
  repeat' first | split | with_reducible refine Keeps.bind ?_ fun _ => ?_ | dsimp only
  all_goals simp [*]

end

section

variable (hP : Elementary P) (hsub : sub.Keep P)
include hP hsub

@[simp] theorem reduceParts_keeps (root : Bool) (e : Expr) : Keeps P (reduceParts sub root e) := by
  unfold reduceParts
  repeat' first | split | with_reducible refine Keeps.bind ?_ fun _ => ?_ | dsimp only
  all_goals simp [*]

@[simp] theorem reduce_keeps (root : Bool) (e : Expr) : Keeps P (reduce sub root e) := by
  unfold reduce
  repeat' first | split | with_reducible refine Keeps.bind ?_ fun _ => ?_ | dsimp only
  all_goals simp [*]

end

end GameScript.Analysis
