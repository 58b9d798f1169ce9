/-
Atomic requests for commands: `add_cmd_call` of `update.c`, and what `nvim_call_atomic` is
asked to send.

`add_cmd_call` collects calls as the functions of `lang/lang.c` do, in an array that starts
with room for 16 of them.
-/
import TagHighlight.Mpack.Message
import TagHighlight.NvimApi.Atomic
import TagHighlight.NvimApi.Call

namespace TagHighlight.Atomic

/-- The array as it is made for the first command. -/
def newCmdArray : MpackArgArray := { fmt := [], args := [], mlen := 16 }

/-- `add_cmd_call`; a new array has room. -/
def addCmdCall (calls : Option MpackArgArray) (cmd : BString) : Except Fault MpackArgArray :=
  addCall (calls.getD newCmdArray) ['s', '[', 's', ']']
    [.str (some (bt "nvim_command")), .str (some cmd)]

/-- The calls of `add_cmd_call` in `update_commands`. -/
def collectCommands (cmds : List BString) : Except Fault (Option MpackArgArray) :=
  cmds.foldlM (fun calls cmd => do .ok (some (← addCmdCall calls cmd))) none

/-! ### What is asked for -/

/-- One call, as its name and its parameters, for the encoder and for Neovim. -/
def commandTree (cmd : BString) : Tree :=
  .array [.string (some (bt "nvim_command")), .array [.string (some cmd)]]

def commandMessage (cmd : BString) : Message :=
  .array [.string (bt "nvim_command"), .array [.string cmd]]

/-- The request for these commands. -/
def commandRequest (count : Int32) (cmds : List BString) : Tree := callsTree count (cmds.map commandTree)

/-- `[0, count, "nvim_call_atomic", [calls]]`, as Neovim hears it. -/
def atomicMessage (count : Int32) (calls : List Message) : Message :=
  Api.requestMessage count (bt "nvim_call_atomic") [.array calls]

/-- Just these calls are packed inside the buffer, and heard. -/
def SaysCalls (lib : BStringLib) (count : Int32) (calls : MpackArgArray) (messages : List Message) :
    Prop :=
  ∃ root, nvimCallAtomic lib count calls = .ok (some root) ∧ root.Sound ∧
    ∀ rest, hear (root.data ++ rest) = some (atomicMessage count messages, rest)

end TagHighlight.Atomic
