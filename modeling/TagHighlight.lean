import TagHighlight.Proofs.Ctags.Taglist
import TagHighlight.Proofs.Util.Archive
import TagHighlight.Proofs.Util.Sequence
import TagHighlight.Proofs.Mpack.RoundTrip
import TagHighlight.Proofs.Mpack.IntForm
import TagHighlight.Proofs.Mpack.Framing
import TagHighlight.Proofs.Mpack.Capacity
import TagHighlight.Proofs.Mpack.Expect
import TagHighlight.Proofs.Mpack.Fmt
import TagHighlight.Proofs.Buffer.Registry
import TagHighlight.Proofs.Buffer.Lifetime
import TagHighlight.Proofs.Events.LineEvent
import TagHighlight.Proofs.Events.Notification
import TagHighlight.Proofs.Events.Blocking
import TagHighlight.Proofs.Events.Attach
import TagHighlight.Proofs.NvimApi.WaitQueue
import TagHighlight.Proofs.NvimApi.AsyncCall
import TagHighlight.Proofs.Lang.Clang
import TagHighlight.Proofs.Lang.CtagsScan
import TagHighlight.Proofs.Lang.UniqTokens
import TagHighlight.Proofs.Lang.StripC
import TagHighlight.Proofs.Lang.Tok
import TagHighlight.Proofs.Ctags.Commands
import TagHighlight.Proofs.Lang.CompileCommands
import TagHighlight.Proofs.Util.Readers
import TagHighlight.Proofs.Lang.StripPython
import TagHighlight.Proofs.NvimApi.Atomic
import TagHighlight.Proofs.Events.InitialLines
import TagHighlight.Proofs.Lang.Golang
import TagHighlight.Proofs.Buffer.TagFilename
import TagHighlight.Proofs.Buffer.Topdir
import TagHighlight.Proofs.Util.GenericList
import TagHighlight.Proofs.Util.Deque
import TagHighlight.Proofs.Ctags.Highlight
import TagHighlight.Proofs.Mpack.Handle
import TagHighlight.Proofs.Lang.GoOutput
import TagHighlight.Proofs.Lang.CtagsLine
import TagHighlight.Proofs.Lang.StripPythonExact
import TagHighlight.Proofs.Events.LineSplice
import TagHighlight.Proofs.Lang.StripCBounds
import TagHighlight.Proofs.Lang.LineRange
import TagHighlight.Proofs.Mpack.Scratch
import TagHighlight.Proofs.Ctags.Update
import TagHighlight.Proofs.Mpack.Message
import TagHighlight.Proofs.NvimApi.Call
import TagHighlight.Proofs.Mpack.Received
import TagHighlight.Proofs.NvimApi.CmdCalls
import TagHighlight.Proofs.NvimApi.Connection
import TagHighlight.Proofs.Lang.Marks
import TagHighlight.Proofs.Lang.GoMarks
import TagHighlight.Proofs.Lang.GoSession
import TagHighlight.Proofs.Lang.Typeid
import TagHighlight.Proofs.Ctags.Names
import TagHighlight.Proofs.Ctags.Session
import TagHighlight.Proofs.Buffer.Filetype
import TagHighlight.Proofs.Lang.TokVim
