/-
Calls of Neovim's functions: the wrappers of `nvim_api/api.c`, and what they hand their
arguments to, `generic_call` of `nvim_api/common.c`.

A wrapper names a function and gives a format for its parameters.  `generic_call` puts that
format into the one of a request and lets the encoder take the arguments from the wrapper's
own list, which it passes by its address.  Lists that are passed so have numbers for
addresses; 0 is that of the list `generic_call` was called with.

What is done with a response is in `internMpackExpect` and after.
-/
import TagHighlight.Events.Notification
import TagHighlight.Mpack.Format
import TagHighlight.Mpack.Message

namespace TagHighlight.Api

open Notification

/-- A call of `generic_call`. -/
structure Call where
  blocking : Bool
  fn : BString
  /-- NULL if there is nothing to give. -/
  fmt : Option (List Char)
  /-- The variadic arguments. -/
  args : List Arg
  /-- The lists that some of these point to. -/
  valists : Nat → List Arg

/-- `snprintf (buf, size, …)` of this text. -/
def snprintf (size : Nat) (text : List Char) : List Char := text.take (size - 1)

/-- `"[d,d,s:[!%s]]"`, in `fmt->slen + 16U` bytes. -/
def genericFmt (fmt : List Char) : List Char :=
  snprintf ((fmt.length + 16) % 2 ^ 32)
    (['[', 'd', ',', 'd', ',', 's', ':', '[', '!'] ++ fmt.takeWhile (· ≠ Char.ofNat 0) ++ [']', ']'])

/-- The lists by address. -/
def Call.lists (call : Call) (ref : Nat) : List Arg :=
  if ref = 0 then call.args else call.valists ref

/-- `generic_call`, up to the packed request; `count` is what `INC_COUNT` returns. -/
def Call.request (lib : BStringLib) (count : Int32) (call : Call) : Except Fault (Option Packed) :=
  match call.fmt with
  | some fmt =>
      -- `MES_REQUEST` is 0.
      mpackEncodeFmt lib 0 (genericFmt fmt)
        (.start [.int 0, .int count, .bstring (some call.fn), .valist 0] call.lists)
  | none =>
      mpackEncodeFmt lib 0 ['[', 'd', ',', 'd', ',', 's', ':', '[', ']', ']']
        (.start [.int 0, .int count, .bstring (some call.fn)] call.valists)

/-- A call with values only. -/
def genericCall (blocking : Bool) (fn fmt : String) (args : List Arg) : Call where
  blocking := blocking
  fn := bt fn
  fmt := some fmt.toList
  args := args
  valists := fun _ => []

/-- A call without parameters. -/
def plainCall (fn : String) : Call where
  blocking := true
  fn := bt fn
  fmt := none
  args := []
  valists := fun _ => []

/-! ### The wrappers -/

/-- A `bstring const *` that is not NULL. -/
def strArg (s : BString) : Arg := .bstring (some s)

/-- An `unsigned` where the format has an `int`. -/
def unsignedArg (n : UInt32) : Arg := .int n.toInt32

/-- A `bool`, which is passed as an `int`. -/
def boolArg (b : Bool) : Arg := .int (if b then 1 else 0)

/-- `enum nvim_write_type`. -/
inductive WriteType where
  | standard | error | errorLn
  deriving DecidableEq, Repr

def nvimWrite (type : WriteType) (mes : BString) : Call :=
  match type with
  | .standard => genericCall false "nvim_out_write" "s" [strArg mes]
  | .error => genericCall false "nvim_err_writeln" "s" [strArg mes]
  | .errorLn => genericCall false "nvim_err_writeln" "s" [strArg mes]

def nvimListBufs : Call := plainCall "nvim_list_bufs"

def nvimGetCurrentBuf : Call := plainCall "nvim_get_current_buf"

def nvimGetCurrentLine : Call := plainCall "nvim_get_current_line"

def nvimBufLineCount (bufnum : UInt32) : Call :=
  genericCall true "nvim_buf_line_count" "d" [unsignedArg bufnum]

def nvimBufGetLines (bufnum : UInt32) (start stop : Int32) : Call :=
  genericCall true "nvim_buf_get_lines" "d,d,d,d" [unsignedArg bufnum, .int start, .int stop, .int 0]

def nvimBufGetName (bufnum : UInt32) : Call :=
  genericCall true "nvim_buf_get_name" "d" [unsignedArg bufnum]

def nvimBufGetVar (bufnum : UInt32) (varname : BString) : Call :=
  genericCall true "nvim_buf_get_var" "d,s" [unsignedArg bufnum, strArg varname]

def nvimBufGetOption (bufnum : UInt32) (optname : BString) : Call :=
  genericCall true "nvim_buf_get_option" "d,s" [unsignedArg bufnum, strArg optname]

def nvimBufGetChangedtick (bufnum : UInt32) : Call :=
  genericCall true "nvim_buf_get_changedtick" "d" [unsignedArg bufnum]

def nvimCommand (cmd : BString) : Call := genericCall true "nvim_command" "s" [strArg cmd]

def nvimExec (src : BString) (output : Bool) : Call :=
  genericCall true "nvim_exec" "sB" [strArg src, boolArg output]

def nvimCommandOutput (cmd : BString) : Call :=
  genericCall true "nvim_command_output" "s" [strArg cmd]

def nvimCallFunction (function : BString) : Call :=
  genericCall true "nvim_call_function" "s,[]" [strArg function]

def nvimEval (eval : BString) : Call := genericCall true "nvim_eval" "s" [strArg eval]

def nvimGetVar (varname : BString) : Call := genericCall true "nvim_get_var" "s" [strArg varname]

def nvimGetOption (optname : BString) : Call :=
  genericCall true "nvim_get_option" "s" [strArg optname]

def nvimSetOption (optname value : BString) : Call :=
  genericCall true "nvim_set_option" "s,s" [strArg optname, strArg value]

def nvimBufAddHighlight (bufnum : UInt32) (hlId : Int32) (group : Option BString)
    (line start : UInt32) (stop : Int32) : Call :=
  genericCall true "nvim_buf_add_highlight" "dd,s,ddd"
    [unsignedArg bufnum, .int hlId, .bstring group, unsignedArg line, unsignedArg start, .int stop]

def nvimBufClearHighlight (bufnum : UInt32) (hlId : Int32) (start : UInt32) (stop : Int32)
    (blocking : Bool) : Call :=
  genericCall blocking "nvim_buf_clear_highlight" "dd,dd"
    [unsignedArg bufnum, .int hlId, unsignedArg start, .int stop]

def nvimBufClearNamespace (bufnum : UInt32) (nsId : Int32) (start : UInt32) (stop : Int32)
    (blocking : Bool) : Call :=
  genericCall blocking "nvim_buf_clear_namespace" "dd,dd"
    [unsignedArg bufnum, .int nsId, unsignedArg start, .int stop]

def nvimGetHlByName (name : BString) (rgb : Bool) : Call :=
  genericCall true "nvim_get_hl_by_name" "sB" [strArg name, boolArg rgb]

def nvimGetHlById (hlid : Int32) (rgb : Bool) : Call :=
  genericCall true "nvim_get_hl_by_id" "dB" [.int hlid, boolArg rgb]

def nvimGetApiInfo : Call := plainCall "nvim_get_api_info"

def nvimSubscribe (event : BString) : Call := genericCall true "nvim_subscribe" "s" [strArg event]

def nvimBufAttach (bufnum : UInt32) : Call :=
  genericCall true "nvim_buf_attach" "d,B,[]" [unsignedArg bufnum, boolArg false]

def nvimSetClientInfo (name : BString) (major minor : UInt32) (dev type : BString) : Call :=
  genericCall false "nvim_set_client_info" "s; \x7bs:d, s:d, s:s\x7d; s; \x7b\x7d; \x7b\x7d"
    [strArg name, strArg (bt "major"), unsignedArg major, strArg (bt "minor"), unsignedArg minor,
      strArg (bt "dev"), strArg dev, strArg type]

/-! ### Wrappers that have arguments of their own -/

/-- The source behind `!`: the list at this address, and no more of the first one. -/
def otherSource (valists : Nat → List Arg) (ref : Nat) : Source where
  own := []
  valists := valists
  ref := some ref
  aArgs := none
  aArgCtr := 0
  aArgSubctr := 0
  nextType := .otherValist

/-- A format and arguments for it, with the values they are. -/
structure Arguments where
  fmt : List Char
  /-- The address of the arguments. -/
  ref : Nat
  valists : Nat → List Arg
  ref_pos : 0 < ref
  unused : valists 0 = []
  body : Format
  parse : parseFmt fmt = some body
  vs : List Value
  supplies : Supplies (some ref) (callLists [] valists) fmt vs
  params : List Tree
  denotes : body.denotes vs = some (params, [])
  evenDicts : body.EvenDicts
  depth : body.depth < 100
  containers : body.lens.length < 100
  short : fmt.length < 2 ^ 31

/-- The address that is passed for `&ap`. -/
def Arguments.arg (a : Arguments) : Arg := .valist a.ref

/-- `nvimext_call_function_fmt`, with the format `"s,[!%s]"`. -/
def nvimextCallFunctionFmt (function : BString) (a : Arguments) : Call where
  blocking := true
  fn := bt "nvim_call_function"
  fmt := some (['s', ',', '[', '!'] ++ a.fmt ++ [']'])
  args := [strArg function, a.arg]
  valists := a.valists

/-- `nvim_set_var`, with the format `"[s,!%s]"`. -/
def nvimSetVar (varname : BString) (a : Arguments) : Call where
  blocking := true
  fn := bt "nvim_set_var"
  fmt := some (['[', 's', ',', '!'] ++ a.fmt ++ [']'])
  args := [strArg varname, a.arg]
  valists := a.valists

/-! ### What is asked for -/

/-- `[0, count, fn, params]`. -/
def requestMessage (count : Int32) (fn : BString) (params : List Message) : Message :=
  .array [.integer 0, .integer count.toInt, .string fn, .array params]

/-- The same for the encoder. -/
def requestTree (count : Int32) (fn : BString) (params : List Tree) : Tree :=
  .array [.integer 0, .integer count.toInt64, .string (some fn), .array params]

/-- The request is packed inside the buffer, and it and nothing else is what a peer hears. -/
def Call.Says (lib : BStringLib) (call : Call) (count : Int32) (params : List Message) : Prop :=
  ∃ root, call.request lib count = .ok (some root) ∧ root.Sound ∧
    ∀ rest, hear (root.data ++ rest) = some (requestMessage count call.fn params, rest)

/-- A use of one of the wrappers. -/
inductive ApiCall where
  | write (type : WriteType) (mes : BString)
  | listBufs
  | getCurrentBuf
  | getCurrentLine
  | bufLineCount (bufnum : UInt32)
  | bufGetLines (bufnum : UInt32) (start stop : Int32)
  | bufGetName (bufnum : UInt32)
  | bufGetVar (bufnum : UInt32) (varname : BString)
  | bufGetOption (bufnum : UInt32) (optname : BString)
  | bufGetChangedtick (bufnum : UInt32)
  | command (cmd : BString)
  | exec (src : BString) (output : Bool)
  | commandOutput (cmd : BString)
  | callFunction (function : BString)
  | callFunctionFmt (function : BString) (a : Arguments)
  | eval (eval : BString)
  | getVar (varname : BString)
  | getOption (optname : BString)
  | setVar (varname : BString) (a : Arguments)
  | setOption (optname value : BString)
  | bufAddHighlight (bufnum : UInt32) (hlId : Int32) (group : Option BString) (line start : UInt32)
      (stop : Int32)
  | bufClearHighlight (bufnum : UInt32) (hlId : Int32) (start : UInt32) (stop : Int32)
      (blocking : Bool)
  | bufClearNamespace (bufnum : UInt32) (nsId : Int32) (start : UInt32) (stop : Int32)
      (blocking : Bool)
  | getHlByName (name : BString) (rgb : Bool)
  | getHlById (hlid : Int32) (rgb : Bool)
  | getApiInfo
  | subscribe (event : BString)
  | bufAttach (bufnum : UInt32)
  | setClientInfo (name : BString) (major minor : UInt32) (dev type : BString)

namespace ApiCall

def call : ApiCall → Call
  | write type mes => nvimWrite type mes
  | listBufs => nvimListBufs
  | getCurrentBuf => nvimGetCurrentBuf
  | getCurrentLine => nvimGetCurrentLine
  | bufLineCount bufnum => nvimBufLineCount bufnum
  | bufGetLines bufnum start stop => nvimBufGetLines bufnum start stop
  | bufGetName bufnum => nvimBufGetName bufnum
  | bufGetVar bufnum varname => nvimBufGetVar bufnum varname
  | bufGetOption bufnum optname => nvimBufGetOption bufnum optname
  | bufGetChangedtick bufnum => nvimBufGetChangedtick bufnum
  | command cmd => nvimCommand cmd
  | exec src output => nvimExec src output
  | commandOutput cmd => nvimCommandOutput cmd
  | callFunction function => nvimCallFunction function
  | callFunctionFmt function a => nvimextCallFunctionFmt function a
  | eval expr => nvimEval expr
  | getVar varname => nvimGetVar varname
  | getOption optname => nvimGetOption optname
  | setVar varname a => nvimSetVar varname a
  | setOption optname value => nvimSetOption optname value
  | bufAddHighlight bufnum hlId group line start stop =>
      nvimBufAddHighlight bufnum hlId group line start stop
  | bufClearHighlight bufnum hlId start stop blocking =>
      nvimBufClearHighlight bufnum hlId start stop blocking
  | bufClearNamespace bufnum nsId start stop blocking =>
      nvimBufClearNamespace bufnum nsId start stop blocking
  | getHlByName name rgb => nvimGetHlByName name rgb
  | getHlById hlid rgb => nvimGetHlById hlid rgb
  | getApiInfo => nvimGetApiInfo
  | subscribe event => nvimSubscribe event
  | bufAttach bufnum => nvimBufAttach bufnum
  | setClientInfo name major minor dev type => nvimSetClientInfo name major minor dev type

/-- The parameters of the function. -/
def params : ApiCall → List Tree
  | write _ mes => [.string (some mes)]
  | listBufs | getCurrentBuf | getCurrentLine | getApiInfo => []
  | bufLineCount bufnum | bufGetName bufnum | bufGetChangedtick bufnum =>
      [.integer bufnum.toInt32.toInt64]
  | bufGetLines bufnum start stop =>
      [.integer bufnum.toInt32.toInt64, .integer start.toInt64, .integer stop.toInt64, .integer 0]
  | bufGetVar bufnum name | bufGetOption bufnum name =>
      [.integer bufnum.toInt32.toInt64, .string (some name)]
  | command str | commandOutput str | eval str | getVar str | getOption str | subscribe str =>
      [.string (some str)]
  | exec src output => [.string (some src), .boolean output]
  | callFunction function => [.string (some function), .array []]
  | callFunctionFmt function a => [.string (some function), .array a.params]
  -- One parameter, not two.
  | setVar varname a => [.array (.string (some varname) :: a.params)]
  | setOption optname value => [.string (some optname), .string (some value)]
  | bufAddHighlight bufnum hlId group line start stop =>
      [.integer bufnum.toInt32.toInt64, .integer hlId.toInt64, .string group,
        .integer line.toInt32.toInt64, .integer start.toInt32.toInt64, .integer stop.toInt64]
  | bufClearHighlight bufnum id start stop _ | bufClearNamespace bufnum id start stop _ =>
      [.integer bufnum.toInt32.toInt64, .integer id.toInt64, .integer start.toInt32.toInt64,
        .integer stop.toInt64]
  | getHlByName name rgb => [.string (some name), .boolean rgb]
  | getHlById hlid rgb => [.integer hlid.toInt64, .boolean rgb]
  | bufAttach bufnum => [.integer bufnum.toInt32.toInt64, .boolean false, .array []]
  | setClientInfo name major minor dev type =>
      [.string (some name),
        .dictionary [(.string (some (bt "major")), .integer major.toInt32.toInt64),
          (.string (some (bt "minor")), .integer minor.toInt32.toInt64),
          (.string (some (bt "dev")), .string (some dev))],
        .string (some type), .dictionary [], .dictionary []]

end ApiCall

/-! ### Responses -/

/--
`intern_mpack_expect`.  The object must have a third element, which the C code looks at without
a test; the freeing of the response is left out.
-/
def internMpackExpect (root : Obj) (type : Expect) (defval : UInt64) : Except Stop Retval := do
  let errmsg ← mpackIndex root 2
  let data ← mpackIndex root 3
  match errmsg with
  | none => .error (.fault .undefined)
  | some .nil => expect data type 0
  | some errmsg =>
      -- Only the warning depends on what is found.
      let _ ← expect (← mpackIndex errmsg 1) .string 0
      .ok (.num defval)

end TagHighlight.Api
