import LuaDump.Interchange.Read

/-! # Documents are read back

The document of a dump is taken apart into drafts, and the drafts settle to the dump. This
holds of every dump, since a document puts no bound on its integers and lengths.
-/

namespace LuaDump.Interchange

open MessagePack

section Values

@[simp] theorem toInteger_integer (value : Int) : toInteger (.integer value) = .ok value := rfl

@[simp] theorem toBoolean_boolean (value : Bool) : toBoolean (.boolean value) = .ok value := by
  cases value <;> rfl

@[simp] theorem toNumber_ofNumber (value : Number) : toNumber (ofNumber value) = .ok value := by
  cases value <;> rfl

@[simp] theorem toFloat_float (value : Binary64) : toFloat (.float value) = .ok value := rfl

@[simp] theorem toBytes_binary (value : Bytes) : toBytes (.binary value) = .ok value := rfl

theorem mapM_map_eq_map {α β γ : Type} {write : α → β} {read : β → Result γ} {view : α → γ}
    (hread : ∀ value, read (write value) = .ok (view value)) (values : List α) :
    (values.map write).mapM read = .ok (values.map view) := by
  induction values with
  | nil => rfl
  | cons value others ih =>
      rw [List.map_cons, List.mapM_cons, hread, ih]
      rfl

theorem mapM_map_of_ok {α β : Type} {write : α → β} {read : β → Result α}
    (hread : ∀ value, read (write value) = .ok value) (values : List α) :
    (values.map write).mapM read = .ok values := by
  rw [mapM_map_eq_map hread, List.map_id']

theorem toList_array_map {α : Type} {write : α → Value} {read : Value → Result α}
    (hread : ∀ value, read (write value) = .ok value) (values : List α) :
    toList read (.array (values.map write)) = .ok values :=
  mapM_map_of_ok hread values

end Values

section Constants

mutual

/-- A constant is taken apart into a draft that settles to it. -/
theorem exists_draft_ofConstant : (constant : Constant) →
    ∃ draft, toConstant (ofConstant constant) = .ok draft ∧ draft.settle = .ok constant
  | .nil => ⟨_, rfl, rfl⟩
  | .boolean true => ⟨_, rfl, rfl⟩
  | .boolean false => ⟨_, rfl, rfl⟩
  | .number (.integer _) => ⟨_, rfl, rfl⟩
  | .number (.float _) => ⟨_, rfl, rfl⟩
  | .string _ => ⟨_, rfl, rfl⟩
  | .proto _ => ⟨_, rfl, rfl⟩
  | .importPath _ => ⟨_, rfl, rfl⟩
  | .complex _ _ => ⟨_, rfl, rfl⟩
  | .vector components => by
      have hcomponents : (components.map Value.float).mapM toFloat = .ok components :=
        mapM_map_of_ok toFloat_float components
      refine ⟨.vector (components.map .float), rfl, ?_⟩
      rw [DraftConstant.settle, hcomponents]
      rfl
  | .table array hash => by
      obtain ⟨arrayDrafts, harray, hsettleArray⟩ := exists_drafts_ofConstants array
      obtain ⟨hashDrafts, hhash, hsettleHash⟩ := exists_drafts_ofEntries hash
      refine ⟨.table arrayDrafts hashDrafts, ?_, ?_⟩
      · have htake : toConstant (ofConstant (.table array hash)) =
            toTable (.array [.array (ofConstants array), .array (ofEntries hash)]) := rfl
        rw [htake, toTable, toConstants, toEntries, harray, hhash]
        rfl
      · rw [DraftConstant.settle, hsettleArray, hsettleHash]
        rfl

theorem exists_drafts_ofConstants : (constants : List Constant) →
    ∃ drafts, toConstantList (ofConstants constants) = .ok drafts ∧
      DraftConstant.settleAll drafts = .ok constants
  | [] => ⟨[], rfl, rfl⟩
  | constant :: rest => by
      obtain ⟨draft, hdraft, hsettle⟩ := exists_draft_ofConstant constant
      obtain ⟨drafts, hdrafts, hsettleAll⟩ := exists_drafts_ofConstants rest
      refine ⟨draft :: drafts, ?_, ?_⟩
      · rw [ofConstants, toConstantList, hdraft, hdrafts]
        rfl
      · rw [DraftConstant.settleAll, hsettle, hsettleAll]
        rfl

theorem exists_drafts_ofEntries : (hash : List (Constant × Constant)) →
    ∃ drafts, toEntryList (ofEntries hash) = .ok drafts ∧
      DraftConstant.settleEntries drafts = .ok hash
  | [] => ⟨[], rfl, rfl⟩
  | (key, value) :: rest => by
      obtain ⟨keyDraft, hkey, hsettleKey⟩ := exists_draft_ofConstant key
      obtain ⟨valueDraft, hvalue, hsettleValue⟩ := exists_draft_ofConstant value
      obtain ⟨drafts, hdrafts, hsettleEntries⟩ := exists_drafts_ofEntries rest
      refine ⟨(keyDraft, valueDraft) :: drafts, ?_, ?_⟩
      · rw [ofEntries, toEntryList, hkey, hvalue, hdrafts]
        rfl
      · rw [DraftConstant.settleEntries, hsettleKey, hsettleValue, hsettleEntries]
        rfl

end

end Constants

section Functions

def localFields (l : Local) : List Value :=
  [.binary l.name, .integer l.startPc, .integer l.endPc, .integer l.register]

def upvalueFields (u : Upvalue) : List Value :=
  [.boolean u.onStack, .integer u.id, .integer u.kind]

def varargFields (vararg : Vararg) : List Value :=
  [.boolean vararg.hasArg, .boolean vararg.needsArg]

def sourceLineFields (line : Int × Int) : List Value :=
  [.integer line.1, .integer line.2]

/-- The fields of a function as its document has them, where its constants have been taken
apart. -/
def bodyDraft (body : Body) (constants : List DraftConstant) : DraftBody where
  name := .binary body.name
  lineDefined := .integer body.lineDefined
  lastLineDefined := .integer body.lastLineDefined
  numUpvalues := .integer body.numUpvalues
  numParams := .integer body.numParams
  maxStack := .integer body.maxStack
  flags := .integer body.flags
  vararg := body.vararg.map varargFields
  instructions := integers body.instructions
  constants
  numConstants := .array (body.numConstants.map ofNumber)
  sourceLines := body.sourceLines.map sourceLineFields
  lineInfo := integers body.lineInfo
  locals := body.locals.map localFields
  upvalues := body.upvalues.map upvalueFields
  upvalueNames := byteStrings body.upvalueNames
  typeInfo := .binary body.typeInfo

theorem toVararg_ofVararg (vararg : Option Vararg) :
    toVararg (ofVararg vararg) = .ok (vararg.map varargFields) := by
  cases vararg <;> rfl

theorem mapM_settleVararg (vararg : Option Vararg) :
    (vararg.map varargFields).mapM settleVararg = .ok vararg := by
  cases vararg with
  | none => rfl
  | some vararg =>
      have hsettle : settleVararg (varargFields vararg) = .ok vararg := by
        simp only [settleVararg, varargFields, toBoolean_boolean]
        rfl
      simp only [Option.map_some, Option.mapM_some, hsettle]
      rfl

theorem settleUpvalue_upvalueFields (u : Upvalue) : settleUpvalue (upvalueFields u) = .ok u := by
  simp only [settleUpvalue, upvalueFields, toBoolean_boolean]
  rfl

theorem settleLocal_localFields (l : Local) : settleLocal (localFields l) = .ok l := rfl

theorem settleSourceLine_sourceLineFields (line : Int × Int) :
    settleSourceLine (sourceLineFields line) = .ok line := rfl

theorem settle_bodyDraft {body : Body} {constants : List DraftConstant}
    (hconstants : DraftConstant.settleAll constants = .ok body.constants) :
    (bodyDraft body constants).settle = .ok body := by
  simp only [DraftBody.settle, bodyDraft, toBytes_binary, toInteger_integer, integers, byteStrings,
    toList_array_map toInteger_integer, toList_array_map toNumber_ofNumber,
    toList_array_map toBytes_binary, mapM_settleVararg, hconstants,
    mapM_map_of_ok settleSourceLine_sourceLineFields, mapM_map_of_ok settleLocal_localFields,
    mapM_map_of_ok settleUpvalue_upvalueFields]
  rfl

theorem toRecord_ofLocal (l : Local) : toRecord [3, 4] (ofLocal l) = .ok (localFields l) := rfl

theorem toRecord_ofUpvalue (u : Upvalue) : toRecord [2, 3] (ofUpvalue u) = .ok (upvalueFields u) :=
  rfl

theorem parts_ofSourceLine (line : Int × Int) :
    parts (ofSourceLine line) = .ok (sourceLineFields line) := rfl

/-- The fields of a function are found under their keys, and its children under theirs. -/
theorem toFunction_ofBody {body : Body} {constants : List DraftConstant} {children : List Value}
    {drafts : List Draft}
    (hconstants : toConstantList (ofConstants body.constants) = .ok constants)
    (hchildren : toFunctionList children = .ok drafts) :
    toFunction (ofBody body children) = .ok (.mk (bodyDraft body constants) drafts) := by
  -- The keys are looked up by evaluation, which leaves the parts that depend on the fields.
  have hfields : toFunction (ofBody body children) = (do
      let vararg ← toVararg (ofVararg body.vararg)
      let constants ← toConstantList (ofConstants body.constants)
      let children ← toFunctionList children
      let sourceLines ← (body.sourceLines.map ofSourceLine).mapM parts
      let locals ← (body.locals.map ofLocal).mapM (toRecord [3, 4])
      let upvalues ← (body.upvalues.map ofUpvalue).mapM (toRecord [2, 3])
      pure (.mk { bodyDraft body constants with vararg, sourceLines, locals, upvalues }
        children)) := rfl
  rw [hfields, toVararg_ofVararg, hconstants, hchildren, mapM_map_eq_map parts_ofSourceLine,
    mapM_map_eq_map toRecord_ofLocal, mapM_map_eq_map toRecord_ofUpvalue]
  rfl

mutual

/-- A function is taken apart into a draft that settles to it. -/
theorem exists_draft_ofPrototype : (tree : Prototype) →
    ∃ draft, toFunction (ofPrototype tree) = .ok draft ∧ draft.settle = .ok tree
  | ⟨body, children⟩ => by
      obtain ⟨constants, hconstants, hsettle⟩ := exists_drafts_ofConstants body.constants
      obtain ⟨drafts, hdrafts, hsettleAll⟩ := exists_drafts_ofPrototypes children
      refine ⟨_, toFunction_ofBody hconstants hdrafts, ?_⟩
      rw [Draft.settle, settle_bodyDraft hsettle, hsettleAll]
      rfl

theorem exists_drafts_ofPrototypes : (trees : List Prototype) →
    ∃ drafts, toFunctionList (ofPrototypes trees) = .ok drafts ∧
      Draft.settleAll drafts = .ok trees
  | [] => ⟨[], rfl, rfl⟩
  | tree :: rest => by
      obtain ⟨draft, hdraft, hsettle⟩ := exists_draft_ofPrototype tree
      obtain ⟨drafts, hdrafts, hsettleAll⟩ := exists_drafts_ofPrototypes rest
      refine ⟨draft :: drafts, ?_, ?_⟩
      · rw [ofPrototypes, toFunctionList, hdraft, hdrafts]
        rfl
      · rw [Draft.settleAll, hsettle, hsettleAll]
        rfl

end

end Functions

section Files

theorem toDialect_code (dialect : Dialect) : toDialect (.integer dialect.code) = .ok dialect := by
  simp [toDialect, equalInteger?]

/-- A dump is read back from its document. -/
theorem ofDocument_ofBytecode (b : Bytecode) : ofDocument (ofBytecode b) = .ok b := by
  obtain ⟨draft, hdraft, hsettle⟩ := exists_draft_ofPrototype b.main
  -- Truth values and the dialect are left, which evaluation cannot read from a variable.
  have hfields : ofDocument (ofBytecode b) = (do
      let main ← toFunction (ofPrototype b.main)
      let dialect ← toDialect (.integer b.header.dialect.code)
      let header ← (do
        let bigEndian ← toBoolean (.boolean b.header.bigEndian)
        let numberIntegral ← toBoolean (.boolean b.header.numberIntegral)
        let stripped ← toBoolean (.boolean b.header.stripped)
        let hasFfi ← toBoolean (.boolean b.header.hasFfi)
        pure { b.header with dialect, bigEndian, numberIntegral, stripped, hasFfi })
      let main ← main.settle
      pure { header, main }) := rfl
  have hmain : ofDocument (ofBytecode b) =
      draft.settle >>= fun main => pure { header := b.header, main := main } := by
    simp only [hfields, hdraft, toDialect_code, toBoolean_boolean]
    rfl
  rw [hmain, hsettle]
  rfl

end Files

end LuaDump.Interchange
