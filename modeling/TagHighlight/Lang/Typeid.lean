/-
The marks of a file of C or C++: `lang/clang/typeid.c`, with `get_token_data` and `tokenize_range`
of `lang/clang/clang.c`.

libclang cuts the text into tokens and gives a cursor for each, which stands for a node of the
syntax tree.  What it answers about cursors and their types is a parameter, so a cursor may refer
to any other, in circles too.  The kind of the cursor decides about the group of a token; some
kinds only refer on to another cursor, and then the switch is entered anew.

`do_libclang_highlight` is here from the joined text to the request, when libclang has parsed the
text.  The assertion of `libclang_highlight` leaves two languages.
-/
import TagHighlight.Lang.GoOutput
import TagHighlight.Lang.LineRange
import TagHighlight.Lang.Marks

namespace TagHighlight.Typeid

open Atomic Golang LineRange

/-! ### What libclang is asked -/

/-- The kinds of a cursor that are told apart. -/
inductive CursorKind where
  | typedefDecl | typeAliasDecl | typeAliasTemplateDecl | friendDecl | conceptDecl
  | cxxBaseSpecifier | typeRef | noDeclFound | templateTypeParameter | nonTypeTemplateParameter
  | memberRef | memberRefExpr | namespace | namespaceAlias | namespaceRef | structDecl | unionDecl
  | classDecl | enumDecl | enumConstantDecl | flagEnum | fieldDecl | cxxMethod | functionDecl
  | callExpr | constructor | destructor | conversionFunction | functionTemplate
  | classTemplatePartialSpecialization | classTemplate | templateRef | macroDefinition
  | macroExpansion | preprocessingDirective | overloadedDeclRef | declRefExpr | parmDecl
  | compoundStmt | variableRef | templateTemplateParameter | other
  deriving DecidableEq, Repr

/-- The kinds of a type that are told apart. -/
inductive TypeKind where
  | functionNoProto | atomic | typedef | enum | functionProto | charU | uShort | uInt | uLong
  | uLongLong | charS | sChar | short | int | long | longLong | dependent | other
  deriving DecidableEq, Repr

inductive TokenKind where
  | punctuation | keyword | identifier | literal | comment
  deriving DecidableEq, Repr

/-- What `clang_getExpansionLocation` stores. -/
structure Location where
  line : UInt32
  column : UInt32
  offset : UInt32
  deriving DecidableEq, Repr

/-- `CXToken`, with its kind and its extent. -/
structure CXToken where
  kind : TokenKind
  start : Location
  stop : Location
  deriving DecidableEq, Repr

/-- The answers of libclang for a translation unit. -/
structure Libclang (Cursor Typ : Type) where
  /-- `clang_tokenize` and `clang_annotateTokens`, for a range of offsets. -/
  tokenize : UInt32 → UInt32 → List (CXToken × Cursor)
  nullCursor : Cursor
  cursorKind : Cursor → CursorKind
  cursorType : Cursor → Typ
  typeKind : Typ → TypeKind
  typeDeclaration : Typ → Cursor
  referenced : Cursor → Cursor
  definition : Cursor → Cursor
  equalCursors : Cursor → Cursor → Bool
  spelling : Cursor → BString
  displayName : Cursor → BString

/-- `FT_C` and `FT_CXX`. -/
inductive FiletypeId where
  | c
  | cxx
  deriving DecidableEq, Repr

/-- What is read of a `Buffer`. -/
structure Buffer where
  num : Int32
  hlId : Int32
  id : FiletypeId
  ft : Filetype

variable {Cursor Typ : Type}

/-! ### The tokens -/

/-- `struct token`; `raw` is the text with a NUL behind it. -/
structure Token (Cursor Typ : Type) where
  cursor : Cursor
  cursortype : Typ
  tokenkind : TokenKind
  line : UInt32
  col1 : UInt32
  col2 : UInt32
  offset : UInt32
  len : UInt32
  text : BString

/-- `STREQ (tok->raw, CS (name))`. -/
def Token.rawEq (tok : Token Cursor Typ) (name : BString) : Bool :=
  tok.text.takeWhile (· ≠ 0) = name.takeWhile (· ≠ 0)

/-- `punctuation_sanity_check`. -/
def punctuationSanityCheck (lib : Libclang Cursor Typ) (cursor : Cursor) : Bool :=
  (bt "operator").isPrefixOf (lib.spelling cursor)

/-- `memcpy` out of a string, the NUL at its end included. -/
def copyFrom (buf : BString) (offset len : UInt32) : Except Fault BString :=
  if offset.toNat + len.toNat ≤ buf.length + 1 then
    .ok (((buf ++ [0]).drop offset.toNat).take len.toNat)
  else .error .undefined

/-- `get_token_data`; the test of the lines is that of `resolve_range`. -/
def getTokenData (lib : Libclang Cursor Typ) (id : FiletypeId) (buf : BString) (tok : CXToken)
    (cursor : Cursor) : Except Fault (Option (Token Cursor Typ)) :=
  if (tok.kind = .identifier ∨
      (tok.kind = .punctuation ∧ id = .cxx ∧ punctuationSanityCheck lib cursor = true)) ∧
      tok.start.line = tok.stop.line then do
    let len := tok.stop.offset - tok.start.offset
    let text ← copyFrom buf tok.start.offset len
    .ok (some
      { cursor, cursortype := lib.cursorType cursor, tokenkind := tok.kind,
        line := tok.start.line - 1, col1 := tok.start.column - 1, col2 := tok.stop.column - 1,
        offset := tok.start.offset, len, text })
  else .ok none

/-- The loop of `tokenize_range`. -/
def getTokens (lib : Libclang Cursor Typ) (id : FiletypeId) (buf : BString) :
    List (CXToken × Cursor) → Except Fault (List (Token Cursor Typ))
  | [] => .ok []
  | (tok, cursor) :: rest => do
      match ← getTokenData lib id buf tok cursor with
      | none => getTokens lib id buf rest
      | some t => .ok (t :: (← getTokens lib id buf rest))

def tokenizeRange (lib : Libclang Cursor Typ) (id : FiletypeId) (buf : BString)
    (first last : Int) : Except Fault (List (Token Cursor Typ)) :=
  getTokens lib id buf (lib.tokenize (UInt32.ofInt first) (UInt32.ofInt last))

/-! ### The switch -/

def ctagsClass : Int32 := 99
def ctagsPreproc : Int32 := 100
def ctagsEnumconst : Int32 := 101
def ctagsFunction : Int32 := 102
def ctagsEnum : Int32 := 103
def ctagsMember : Int32 := 109
def ctagsNamespace : Int32 := 110
def ctagsStruct : Int32 := 115
def ctagsType : Int32 := 116
def ctagsUnion : Int32 := 117
def extensionOverloadedDecl : Int32 := 68
def extensionMethod : Int32 := 77
def extensionOverloadedop : Int32 := 79
def extensionTemplate : Int32 := 84
def extensionTypeKeyword : Int32 := 75
def extensionIDontKnow : Int32 := 113
def extensionTemplateNontypeParam : Int32 := 78
def extensionTemplateTypeParam : Int32 := extensionOverloadedop

/-- `sanity_check_name`. -/
def sanityCheckName (lib : Libclang Cursor Typ) (tok : Token Cursor Typ) (cursor : Cursor) :
    Bool :=
  let newcurs := lib.typeDeclaration tok.cursortype
  tok.rawEq (lib.spelling cursor) || tok.rawEq (lib.displayName newcurs)

/-- `is_really_template_parameter`. -/
def isReallyTemplateParameter (lib : Libclang Cursor Typ) (tok : Token Cursor Typ)
    (cursor : Cursor) : Bool :=
  !tok.rawEq (lib.spelling cursor)

/-- What comes after the `switch`. -/
inductive Next (Cursor : Type) where
  /-- `break`, with the value of `call_group`. -/
  | leave (callGroup : Int32)
  /-- `goto retry`. -/
  | retry (cursor : Cursor) (callGroup : Int32) (inTemplate : Bool)

/-- The label `primative_type`. -/
def primativeType (lib : Libclang Cursor Typ) (id : FiletypeId) (cursor : Cursor)
    (callGroup : Int32) : Int32 :=
  if id = .c then
    match lib.cursorKind (lib.referenced cursor) with
    | .enumConstantDecl => ctagsEnumconst
    | .nonTypeTemplateParameter => extensionTemplateNontypeParam
    | _ => callGroup
  else callGroup

/-- The `switch` over the kind of the type of a `DeclRefExpr`. -/
def declRefGroup (lib : Libclang Cursor Typ) (id : FiletypeId) (tok : Token Cursor Typ)
    (last cursor : Cursor) (callGroup : Int32) : Int32 :=
  match lib.typeKind (lib.cursorType cursor) with
  | .functionNoProto | .atomic | .typedef =>
      primativeType lib id cursor
        (if id = .cxx then
          match lib.cursorKind (lib.referenced cursor) with
          | .nonTypeTemplateParameter => extensionTemplateTypeParam
          | .typeRef => ctagsType
          | _ => callGroup
        else callGroup)
  | .enum => ctagsEnumconst
  | .functionProto =>
      if tok.tokenkind = .punctuation then extensionOverloadedop else ctagsFunction
  | .charU | .uShort | .uInt | .uLong | .uLongLong | .charS | .sChar | .short | .int | .long
  | .longLong => primativeType lib id cursor callGroup
  | .dependent =>
      if id = .cxx then
        if lib.typeKind (lib.cursorType last) = .enum then ctagsEnumconst else callGroup
      else ctagsType
  | .other =>
      let reftype := lib.cursorType (lib.definition cursor)
      if lib.typeKind reftype = .functionProto then ctagsFunction else callGroup

/-- The `switch (cursor.kind)` of `do_typeswitch`. -/
def switchKind (lib : Libclang Cursor Typ) (id : FiletypeId) (tok : Token Cursor Typ)
    (last : Cursor) (gotoSafetyCount : Nat) (cursor : Cursor) (callGroup : Int32)
    (inTemplate : Bool) : Next Cursor :=
  match lib.cursorKind cursor with
  | .typedefDecl | .typeAliasDecl | .typeAliasTemplateDecl | .friendDecl => .leave ctagsType
  | .conceptDecl => .leave extensionTypeKeyword
  | .cxxBaseSpecifier => .leave extensionIDontKnow
  | .typeRef =>
      if id = .cxx then
        let newcurs := lib.referenced cursor
        match lib.cursorKind newcurs with
        | .noDeclFound => .leave callGroup
        | .templateTypeParameter => .leave extensionTemplateTypeParam
        | .nonTypeTemplateParameter => .retry newcurs extensionTemplateNontypeParam true
        | _ => .retry newcurs callGroup inTemplate
      else .leave ctagsType
  | .memberRef | .memberRefExpr =>
      if id = .cxx then .retry (lib.referenced cursor) callGroup inTemplate
      else .leave ctagsMember
  | .namespace =>
      if gotoSafetyCount > 0 ∧ sanityCheckName lib tok cursor = false then .leave callGroup
      else .leave ctagsNamespace
  | .namespaceAlias | .namespaceRef => .leave ctagsNamespace
  | .structDecl => .leave ctagsStruct
  | .unionDecl => .leave ctagsUnion
  | .classDecl =>
      if gotoSafetyCount > 0 ∧ sanityCheckName lib tok cursor = false then .leave callGroup
      else .leave ctagsClass
  | .enumDecl => .leave ctagsEnum
  | .enumConstantDecl | .flagEnum => .leave ctagsEnumconst
  | .fieldDecl =>
      if gotoSafetyCount > 0 ∧ isReallyTemplateParameter lib tok cursor = true then
        .leave extensionTemplateTypeParam
      else .leave ctagsMember
  | .cxxMethod =>
      if gotoSafetyCount > 0 ∧ isReallyTemplateParameter lib tok cursor = true then
        .leave extensionTemplateTypeParam
      else .leave extensionMethod
  | .functionDecl | .callExpr => .leave ctagsFunction
  | .constructor | .destructor | .conversionFunction => .leave extensionMethod
  | .templateTypeParameter => .leave extensionTemplateTypeParam
  | .nonTypeTemplateParameter =>
      let ref := lib.referenced cursor
      if lib.typeKind (lib.cursorType cursor) = .int ∧ lib.equalCursors cursor ref = true then
        if tok.rawEq (lib.spelling ref) then .leave extensionTemplateTypeParam
        else .leave extensionTypeKeyword
      else .leave extensionTemplateNontypeParam
  | .functionTemplate => .leave ctagsFunction
  | .classTemplatePartialSpecialization | .classTemplate | .templateRef =>
      if gotoSafetyCount > 0 ∧ sanityCheckName lib tok cursor = false then .leave callGroup
      else .leave extensionTemplate
  | .macroDefinition =>
      if lib.cursorKind last = .preprocessingDirective then .leave ctagsPreproc
      else .leave callGroup
  | .macroExpansion => .leave ctagsPreproc
  | .overloadedDeclRef => .leave extensionOverloadedDecl
  | .declRefExpr =>
      let callGroup := declRefGroup lib id tok last cursor callGroup
      if inTemplate ∧ callGroup = 0 then .leave extensionTemplateTypeParam else .leave callGroup
  | .parmDecl =>
      if gotoSafetyCount > 0 ∧ isReallyTemplateParameter lib tok cursor = true then
        .leave extensionTemplateTypeParam
      else .leave callGroup
  | .compoundStmt =>
      .retry (lib.typeDeclaration (lib.cursorType cursor)) callGroup inTemplate
  | .variableRef =>
      if lib.cursorKind (lib.referenced cursor) = .fieldDecl then .leave ctagsMember
      else .leave callGroup
  | .templateTemplateParameter => .leave extensionTemplate
  | .noDeclFound | .preprocessingDirective | .other => .leave callGroup

/-- From the label `retry` on: the cursor at the end, and `call_group` unless it is skipped. -/
def retry (lib : Libclang Cursor Typ) (id : FiletypeId) (tok : Token Cursor Typ) (last : Cursor)
    (gotoSafetyCount : Nat) (cursor : Cursor) (callGroup : Int32) (inTemplate : Bool) :
    Cursor × Option Int32 :=
  if 2 < gotoSafetyCount then (cursor, none)
  else
    match switchKind lib id tok last (gotoSafetyCount + 1) cursor callGroup inTemplate with
    | .leave callGroup => (cursor, some callGroup)
    | .retry cursor callGroup inTemplate =>
        retry lib id tok last (gotoSafetyCount + 1) cursor callGroup inTemplate
termination_by 3 - gotoSafetyCount

/-! ### The calls -/

/-- `do_typeswitch`: what `*last` becomes, and the calls. -/
def doTypeswitch (lib : Libclang Cursor Typ) (strings : Library) (bdata : Buffer)
    (calls : MpackArgArray) (tok : Token Cursor Typ) (last : Cursor) :
    Except Fault (Cursor × MpackArgArray) :=
  match retry lib bdata.id tok last 0 tok.cursor 0 false with
  | (cursor, none) => .ok (cursor, calls)
  | (cursor, some callGroup) =>
      if callGroup = 0 then .ok (cursor, calls)
      else
        match findGroup strings bdata.ft callGroup with
        | none => .ok (cursor, calls)
        | some group => do
            let calls ← addHlCall calls bdata.num bdata.hlId group
              { line := tok.line, start := tok.col1, stop := tok.col2 }
            .ok (cursor, calls)

/-- `tok_in_skip_list`, which does not ask whether there is a list. -/
def tokInSkipList (strings : Library) (bdata : Buffer) (tok : Token Cursor Typ) :
    Except Fault Bool :=
  match bdata.ft.ignoredTags with
  | none => .error .undefined
  | some ignoredTags => .ok (strings.bsearch ignoredTags tok.text)

/-- The loop of `create_nvim_calls`. -/
def typeswitches (lib : Libclang Cursor Typ) (strings : Library) (bdata : Buffer) :
    List (Token Cursor Typ) → Cursor → MpackArgArray → Except Fault MpackArgArray
  | [], _, calls => .ok calls
  | tok :: toks, last, calls =>
      if tok.line.toInt32 = -1 then typeswitches lib strings bdata toks last calls
      else do
        if ← tokInSkipList strings bdata tok then typeswitches lib strings bdata toks last calls
        else
          let (last, calls) ← doTypeswitch lib strings bdata calls tok last
          typeswitches lib strings bdata toks last calls

/-- `create_nvim_calls`; `hlId` is what `nvim_buf_add_highlight` returns. -/
def createNvimCalls (lib : Libclang Cursor Typ) (strings : Library) (bdata : Buffer)
    (hlId : Int32) (toks : List (Token Cursor Typ)) : Except Fault MpackArgArray :=
  if bdata.hlId = 0 then
    typeswitches lib strings { bdata with hlId := hlId } toks lib.nullCursor newArgArray
  else do
    let calls ← addClrCall newArgArray bdata.num bdata.hlId 0 (-1)
    typeswitches lib strings bdata toks lib.nullCursor calls

/-- `startend`, the bytes that are to be cut into tokens. -/
def startend (joined : BString) (lines : LinkedList BString) (first last : Int) :
    Except Fault (Int × Int) :=
  if last = -1 then .ok (0, (joined.length : Int)) else lines2bytes lines first last

/-- `do_libclang_highlight`; `parse` is what libclang makes of the text. -/
def doLibclangHighlight (parse : BString → Libclang Cursor Typ) (join : JoinLib)
    (strings : Library) (bdata : Buffer) (lines : LinkedList BString) (hlId : Int32)
    (first last : Int) : Except Fault MpackArgArray := do
  let joined ← llJoinBstrings join lines 10
  let range ← startend joined lines first last
  let toks ← tokenizeRange (parse joined) bdata.id joined range.1 range.2
  createNvimCalls (parse joined) strings bdata hlId toks

/-! ### What a token is to be -/

/-- The cursor that a cursor refers on to. -/
def refersTo (lib : Libclang Cursor Typ) (id : FiletypeId) (cursor : Cursor) : Option Cursor :=
  match lib.cursorKind cursor with
  | .typeRef =>
      if id = .cxx ∧ lib.cursorKind (lib.referenced cursor) ≠ .noDeclFound ∧
          lib.cursorKind (lib.referenced cursor) ≠ .templateTypeParameter then
        some (lib.referenced cursor)
      else none
  | .memberRef | .memberRefExpr => if id = .cxx then some (lib.referenced cursor) else none
  | .compoundStmt => some (lib.typeDeclaration (lib.cursorType cursor))
  | _ => none

/-- Where a cursor leads to, and whether it is one that does not refer on, within `n` looks. -/
def settle (lib : Libclang Cursor Typ) (id : FiletypeId) : (n : Nat) → Cursor → Cursor × Bool
  | 0, cursor => (cursor, false)
  | n + 1, cursor =>
      match refersTo lib id cursor with
      | none => (cursor, true)
      | some cursor => settle lib id n cursor

/-- The class of a token whose cursor does not refer on. -/
def classAt (lib : Libclang Cursor Typ) (id : FiletypeId) (tok : Token Cursor Typ)
    (last cursor : Cursor) : Int32 :=
  match switchKind lib id tok last 1 cursor 0 false with
  | .leave callGroup => callGroup
  | .retry _ _ _ => 0

/-- The class of a token; it has none if its cursor refers on and on. -/
def classOf (lib : Libclang Cursor Typ) (id : FiletypeId) (tok : Token Cursor Typ)
    (last : Cursor) : Int32 :=
  if (settle lib id 3 tok.cursor).2 then classAt lib id tok last (settle lib id 3 tok.cursor).1
  else 0

/-- The mark for a token, if it has a class and that has a group. -/
def Token.mark (lib : Libclang Cursor Typ) (strings : Library) (id : FiletypeId) (ft : Filetype)
    (last : Cursor) (tok : Token Cursor Typ) : Option Mark :=
  if classOf lib id tok last = 0 then none
  else
    (findGroup strings ft (classOf lib id tok last)).map fun group =>
      { group, line := tok.line.toNat, start := tok.col1.toNat, stop := tok.col2.toNat }

/-- The marks for tokens that are neither from elsewhere nor ignored. -/
def tokenMarks (lib : Libclang Cursor Typ) (strings : Library) (id : FiletypeId) (ft : Filetype) :
    List (Token Cursor Typ) → Cursor → List Mark
  | [], _ => []
  | tok :: toks, last =>
      (tok.mark lib strings id ft last).toList ++
        tokenMarks lib strings id ft toks (settle lib id 3 tok.cursor).1

/-- The tokens that the switch gets to see. -/
def Token.Wanted (strings : Library) (ignoredTags : List BString) (tok : Token Cursor Typ) : Prop :=
  tok.line.toInt32 ≠ -1 ∧ strings.bsearch ignoredTags tok.text = false

instance (strings : Library) (ignoredTags : List BString) :
    DecidablePred fun tok : Token Cursor Typ => tok.Wanted strings ignoredTags :=
  fun _ => inferInstanceAs (Decidable (_ ∧ _))

/-! ### Where a token is to stand -/

/-- The bytes of the lines from `first` to `last`, or of all. -/
def byteRange (lines : List BString) (first last : Int) : Nat × Nat :=
  if last = -1 then (0, (textOf lines).length)
  else ((textOf (lines.take first.toNat)).length, (textOf (lines.take (last.toNat + 1))).length)

/-- The location of what is in no file. -/
def Location.null : Location := { line := 0, column := 0, offset := 0 }

/-- A place in a line of the text, or its end. -/
structure Location.IsAt (lines : List BString) (row col : Nat) (loc : Location) : Prop where
  inside : ∃ line, lines[row]? = some line ∧ col ≤ line.length
  line : loc.line.toNat = row + 1
  column : loc.column.toNat = col + 1
  offset : loc.offset.toNat = (textOf (lines.take row)).length + col

/-- A token of the text. -/
structure CXToken.InText (lines : List BString) (tok : CXToken) : Prop where
  start : ∃ row col, tok.start.IsAt lines row col
  stop : ∃ row col, tok.stop.IsAt lines row col
  le : tok.start.offset ≤ tok.stop.offset

/-- A token that is in no file. -/
def CXToken.Elsewhere (tok : CXToken) : Prop := tok.start = .null ∧ tok.stop = .null

/-- A name, or what may be an operator that is overloaded, on one line. -/
def Chosen (lib : Libclang Cursor Typ) (id : FiletypeId) (t : CXToken × Cursor) : Prop :=
  (t.1.kind = .identifier ∨
    (t.1.kind = .punctuation ∧ id = .cxx ∧ punctuationSanityCheck lib t.2 = true)) ∧
  t.1.start.line = t.1.stop.line

instance (lib : Libclang Cursor Typ) (id : FiletypeId) : DecidablePred (Chosen lib id) :=
  fun _ => inferInstanceAs (Decidable (_ ∧ _))

/-- A token that was cut out of the text. -/
structure CutFrom (lib : Libclang Cursor Typ) (lines : List BString) (t : CXToken × Cursor)
    (tok : Token Cursor Typ) : Prop where
  cursor : tok.cursor = t.2
  cursortype : tok.cursortype = lib.cursorType t.2
  tokenkind : tok.tokenkind = t.1.kind
  elsewhere : t.1.Elsewhere → tok.line.toInt32 = -1
  text : t.1.InText lines → ∃ line, lines[tok.line.toNat]? = some line ∧
    t.1.start.IsAt lines tok.line.toNat tok.col1.toNat ∧
    t.1.stop.IsAt lines tok.line.toNat tok.col2.toNat ∧
    tok.col1.toNat ≤ tok.col2.toNat ∧
    tok.text = (line.drop tok.col1.toNat).take (tok.col2.toNat - tok.col1.toNat)

/-- The mark is on a stretch of a line that is not to be ignored. -/
def Covers (strings : Library) (ignoredTags : List BString) (lines : List BString) (m : Mark) :
    Prop :=
  ∃ line, lines[m.line]? = some line ∧ m.start ≤ m.stop ∧ m.stop ≤ line.length ∧
    strings.bsearch ignoredTags ((line.drop m.start).take (m.stop - m.start)) = false

end TagHighlight.Typeid
