/-
The bytes between the program and Neovim carry the messages.

The system with bytes does what the one with counts does.  A request that was written and not
heard is a stretch of the bytes one way, and a message that was sent and not read is one of
those the other way.  So a step of the threads is the same step there, and a step that moves
bytes across is one too, or none.  What is known of the counts is then known of the messages.

The relation between the two states has a part for each thing that bytes stand for.  `Numbers`
says which calls there were and which of them were written, `Outgoing` what the bytes to Neovim
are, `Parcel` what a message of Neovim is that is still on its way, and `Follows` how far the
lines of a buffer are behind.  Each action then has a lemma that says what becomes of these, and
`connection_simulates` only puts the lemmas together.

Two things are taken from elsewhere.  That a message is heard as what it is, and no piece of it as
anything, is in `Proofs/Mpack`; that the counts find their threads whatever the order is the
invariant of `Proofs/NvimApi/WaitQueue`, which is not looked into here.
-/
import TagHighlight.Lib.Simulation
import TagHighlight.NvimApi.Connection
import TagHighlight.Proofs.Events.LineEvent
import TagHighlight.Proofs.Events.Notification
import TagHighlight.Proofs.Mpack.Handle
import TagHighlight.Proofs.Mpack.Pieces
import TagHighlight.Proofs.Mpack.Received
import TagHighlight.Proofs.NvimApi.CmdCalls
import TagHighlight.Proofs.NvimApi.WaitQueue

namespace TagHighlight

/-! ### Threads, whatever is under way

The threads that wait for responses move no bytes.  So their steps are the same with any messages
under way, and it is enough to say which parts of the state they leave alone: the counts of the
callers, the counter, and the objects, which they only hand on.
-/

namespace WaitState

variable {ρ : Type} {s s' : WaitState ρ}

/-- The threads of one state with the messages of another. -/
def withFlight (s : WaitState ρ) (requests : List Nat) (responses : List (Response ρ)) :
    WaitState ρ :=
  { s with requests := requests, responses := responses }

/-- A step that moves no message does not look at any. -/
theorem step_withFlight {action : WaitAction ρ} (hlocal : Connection.isLocal action = true)
    (hs : s.step action = some s') (requests : List Nat) (responses : List (Response ρ)) :
    (s.withFlight requests responses).step action = some (s'.withFlight requests responses) := by
  cases action with
  | incCount t => cases hlocal
  | write t => cases hlocal
  | answer i result => cases hlocal
  | receive => cases hlocal
  | append t a =>
      obtain ⟨count, hcaller, hnode, rfl⟩ := append_cases hs
      simp [step, append, withFlight, hcaller, hnode, setNode, setCaller]
  | resume t =>
      obtain ⟨count, a, node, obj, hcaller, hnode, hfut, hobj, rfl⟩ := resume_cases hs
      simp [step, resume, withFlight, hcaller, hnode, hfut, hobj, setCaller]
  | pop i =>
      obtain ⟨thread, hi, hs⟩ := Option.bind_eq_some_iff.mp hs
      cases hstage : thread.stage <;> cases hqueue : s.queue <;> simp only [hstage, hqueue] at hs
      case popping.nil =>
        obtain rfl := Option.some.inj hs
        simp [step, pop, withFlight, hi, hstage, hqueue]
      case popping.cons a rest =>
        obtain rfl := Option.some.inj hs
        simp [step, pop, withFlight, hi, hstage, hqueue, setStage]
      all_goals exact absurd hs (by simp)
  | compare i =>
      obtain ⟨thread, hi, hs⟩ := Option.bind_eq_some_iff.mp hs
      cases hstage : thread.stage <;> simp only [hstage] at hs
      case comparing a =>
        obtain ⟨node, hnode, hs⟩ := Option.bind_eq_some_iff.mp hs
        split at hs
        · rename_i hmatch
          obtain rfl := Option.some.inj hs
          simp [step, compare, withFlight, hi, hstage, hnode, hmatch, setStage]
        · rename_i hmatch
          obtain rfl := Option.some.inj hs
          simp [step, compare, withFlight, hi, hstage, hnode, hmatch, setStage]
      all_goals exact absurd hs (by simp)
  | deliver i =>
      obtain ⟨thread, a, node, hi, hstage, hnode, rfl⟩ := deliver_cases hs
      simp [step, deliver, withFlight, hi, hstage, hnode, setStage, setNode]
  | wake i =>
      obtain ⟨thread, a, node, hi, hstage, hnode, rfl⟩ := wake_cases hs
      simp [step, wake, withFlight, hi, hstage, hnode, setNode]

theorem incCount_withFlight {t : Nat} (hs : s.incCount t = some s') (requests : List Nat)
    (responses : List (Response ρ)) :
    (s.withFlight requests responses).incCount t = some (s'.withFlight requests responses) := by
  unfold incCount at hs ⊢
  cases hcaller : s.callers t <;> simp only [hcaller] at hs
  case idle =>
    obtain rfl := Option.some.inj hs
    simp [withFlight, hcaller, setCaller]
  case returned count obj =>
    obtain rfl := Option.some.inj hs
    simp [withFlight, hcaller, setCaller]
  all_goals exact absurd hs (by simp)

/-- The objects that the threads have, or the nodes, or that were returned. -/
structure Objects (s : WaitState ρ) (P : Response ρ → Prop) : Prop where
  threads : ∀ thread ∈ s.threads, P thread.obj
  nodes : ∀ a node obj, s.nodes a = some node → node.obj = some obj → P obj
  returned : ∀ t count obj, s.callers t = .returned count obj → P obj

namespace Objects

variable {P : Response ρ → Prop}

theorem imp {Q : Response ρ → Prop} (h : s.Objects P) (hPQ : ∀ obj, P obj → Q obj) :
    s.Objects Q :=
  ⟨fun th hth => hPQ _ (h.threads th hth), fun a node obj hn ho => hPQ _ (h.nodes a node obj hn ho),
    fun t count obj ht => hPQ _ (h.returned t count obj ht)⟩

theorem setStage_threads {i : Nat} {thread : ResponseThread ρ} {stage : Stage}
    (h : s.Objects P) (hi : s.threads[i]? = some thread) :
    ∀ th ∈ (s.setStage i thread stage).threads, P th.obj := by
  intro th hth
  rcases List.mem_or_eq_of_mem_set hth with hth | rfl
  · exact h.threads th hth
  · exact h.threads thread (List.mem_of_getElem? hi)

theorem setNode_nodes {a : Nat} {node : WaitNode ρ} (h : s.Objects P)
    (hnode : ∀ obj, node.obj = some obj → P obj) (b : Nat) (other : WaitNode ρ)
    (obj : Response ρ) (hother : (s.setNode a node).nodes b = some other)
    (hobj : other.obj = some obj) : P obj := by
  simp only [setNode, Function.update_apply] at hother
  split at hother
  · obtain rfl := Option.some.inj hother
    exact hnode obj hobj
  · exact h.nodes b other obj hother hobj

theorem setCaller_returned {t : Nat} {caller : Caller ρ} (h : s.Objects P)
    (hcaller : ∀ count obj, caller = .returned count obj → P obj) (t' count : Nat)
    (obj : Response ρ) (ht' : (s.setCaller t caller).callers t' = .returned count obj) : P obj := by
  simp only [setCaller, Function.update_apply] at ht'
  split at ht'
  · exact hcaller count obj ht'
  · exact h.returned t' count obj ht'

/-- Threads hand objects on, and make none. -/
theorem step {action : WaitAction ρ} (h : s.Objects P)
    (hlocal : Connection.isLocal action = true) (hs : s.step action = some s') : s'.Objects P := by
  cases action with
  | incCount t => cases hlocal
  | write t => cases hlocal
  | answer i result => cases hlocal
  | receive => cases hlocal
  | append t a =>
      obtain ⟨count, hcaller, hnode, rfl⟩ := append_cases hs
      exact ⟨h.threads, setNode_nodes h (by simp), fun t' c obj ht' =>
        setCaller_returned h (by simp) t' c obj ht'⟩
  | resume t =>
      obtain ⟨count, a, node, obj, hcaller, hnode, hfut, hobj, rfl⟩ := resume_cases hs
      refine ⟨h.threads, fun b other o hb ho => ?_, fun t' c o ht' => ?_⟩
      · simp only [Function.update_apply] at hb
        split at hb
        · cases hb
        · exact h.nodes b other o hb ho
      · refine setCaller_returned h (fun c' o' heq => ?_) t' c o ht'
        obtain ⟨-, rfl⟩ := Caller.returned.inj heq
        exact h.nodes a node obj hnode hobj
  | pop i =>
      rcases pop_cases hs with rfl | ⟨thread, a, rest, hi, -, -, rfl⟩
      · exact h
      · exact ⟨h.setStage_threads hi, h.nodes, h.returned⟩
  | compare i =>
      obtain ⟨thread, a, node, hi, -, -, ⟨-, rfl⟩ | rfl⟩ := compare_cases hs
      · exact ⟨h.setStage_threads hi, h.nodes, h.returned⟩
      · exact ⟨h.setStage_threads hi, h.nodes, h.returned⟩
  | deliver i =>
      obtain ⟨thread, a, node, hi, -, hnode, rfl⟩ := deliver_cases hs
      refine ⟨h.setStage_threads hi, setNode_nodes h fun obj hobj => ?_, h.returned⟩
      exact Option.some.inj hobj ▸ h.threads thread (List.mem_of_getElem? hi)
  | wake i =>
      obtain ⟨thread, a, node, hi, -, hnode, rfl⟩ := wake_cases hs
      exact ⟨fun th hth => h.threads th (List.mem_of_mem_eraseIdx hth),
        setNode_nodes h fun obj hobj => h.nodes a node obj hnode hobj, h.returned⟩

end Objects

end WaitState

/-- The count of the last call. -/
def Caller.last {ρ : Type} : Caller ρ → Option Nat
  | .idle => none
  | .counted count | .written count | .waiting count _ | .returned count _ => some count

namespace WaitState

variable {ρ : Type} {s s' : WaitState ρ}

/-- Threads that wait keep their counts, and none of them is in the middle of writing. -/
theorem callers_step {action : WaitAction ρ} (hlocal : Connection.isLocal action = true)
    (hs : s.step action = some s') (t : Nat) :
    (s'.callers t).last = (s.callers t).last ∧
      ∀ count, s'.callers t = .counted count ↔ s.callers t = .counted count := by
  cases action with
  | incCount t => cases hlocal
  | write t => cases hlocal
  | answer i result => cases hlocal
  | receive => cases hlocal
  | append t' a =>
      obtain ⟨count, hcaller, hnode, rfl⟩ := append_cases hs
      by_cases ht : t = t'
      · subst ht
        simp [setCaller, Caller.last, hcaller]
      · simp [setCaller, setNode, Function.update_of_ne ht]
  | resume t' =>
      obtain ⟨count, a, node, obj, hcaller, hnode, hfut, hobj, rfl⟩ := resume_cases hs
      by_cases ht : t = t'
      · subst ht
        simp [setCaller, Caller.last, hcaller]
      · simp [setCaller, Function.update_of_ne ht]
  | pop i =>
      rcases pop_cases hs with rfl | ⟨thread, a, rest, hi, -, -, rfl⟩
      · exact ⟨rfl, fun _ => Iff.rfl⟩
      · exact ⟨rfl, fun _ => Iff.rfl⟩
  | compare i =>
      obtain ⟨thread, a, node, hi, -, -, ⟨-, rfl⟩ | rfl⟩ := compare_cases hs
      · exact ⟨rfl, fun _ => Iff.rfl⟩
      · exact ⟨rfl, fun _ => Iff.rfl⟩
  | deliver i =>
      obtain ⟨thread, a, node, hi, -, hnode, rfl⟩ := deliver_cases hs
      exact ⟨rfl, fun _ => Iff.rfl⟩
  | wake i =>
      obtain ⟨thread, a, node, hi, -, hnode, rfl⟩ := wake_cases hs
      exact ⟨rfl, fun _ => Iff.rfl⟩

/-- They take no count either. -/
theorem count_step {action : WaitAction ρ} (hlocal : Connection.isLocal action = true)
    (hs : s.step action = some s') : s'.count = s.count := by
  cases action with
  | incCount t => cases hlocal
  | write t => cases hlocal
  | answer i result => cases hlocal
  | receive => cases hlocal
  | append t a =>
      obtain ⟨count, -, -, rfl⟩ := append_cases hs
      rfl
  | resume t =>
      obtain ⟨count, a, node, obj, -, -, -, -, rfl⟩ := resume_cases hs
      rfl
  | pop i => rcases pop_cases hs with rfl | ⟨thread, a, rest, -, -, -, rfl⟩ <;> rfl
  | compare i =>
      obtain ⟨thread, a, node, -, -, -, ⟨-, rfl⟩ | rfl⟩ := compare_cases hs
      · rfl
      · rfl
  | deliver i =>
      obtain ⟨thread, a, node, -, -, -, rfl⟩ := deliver_cases hs
      rfl
  | wake i =>
      obtain ⟨thread, a, node, -, -, -, rfl⟩ := wake_cases hs
      rfl

end WaitState

namespace Connection

open Notification

/-! ### What Neovim sends, as the program has it

A message may be written in any form that MessagePack has for it.  The program sees the object
that its decoder makes of it, and here this object is the same for every form: a count that is not
negative is never among the numbers that the decoder loses.  So `handle_line_event` goes on with
the very edit that Neovim has made.
-/

theorem isUnsigned_obj {n : Nat} {w : Wire} (h : IsUnsigned n w) :
    w.obj = .unsigned (UInt64.ofNat n) := by
  cases w with
  | posFixint k => rw [Wire.obj, show k.val = n from h]
  | uint width k => rw [Wire.obj, show k % 256 ^ width.size = n from h]
  | _ => exact absurd h id

theorem isHandle_obj {n : Nat} {w : Wire} (h : IsHandle n w) :
    ∃ type, w.obj = .ext ⟨type, UInt8.ofNat (Handle.minimalUnsigned n).length,
      Handle.minimalUnsigned n⟩ := by
  cases w with
  | fixext width type payload => exact ⟨type, by rw [Wire.obj, show payload = _ from h]⟩
  | ext8 type payload => exact ⟨type, by rw [Wire.obj, show payload = _ from h]⟩
  | _ => exact absurd h id

theorem isString_objs {strs : List BString} {ws : List Wire} (h : List.Forall₂ IsString strs ws) :
    itemObjs ws = strs.map Obj.string := by
  induction h with
  | nil => rfl
  | @cons str w strs ws hstr _ ih =>
      have hobj : w.obj = .string str := by
        cases w with
        | string form str' => rw [Wire.obj, show str' = str from hstr]
        | _ => exact absurd hstr id
      rw [itemObjs, hobj, ih, List.map_cons]

theorem expect_unsigned (v : UInt64) (alternatives : UInt32) :
    expect (some (.unsigned v)) .num alternatives = .ok (.num v) := by
  rw [expect, mpackExpect_taken rfl]

theorem expect_handle {n : Nat} {w : Wire} (h : IsHandle n w) (hn : n < 2 ^ 16) :
    expect (some w.obj) .num 0 = .ok (.num (UInt64.ofNat n)) := by
  obtain ⟨type, hobj⟩ := isHandle_obj h
  have hvalue := Handle.interpret_minimal type n
  rw [if_pos hn] at hvalue
  have hbranch : Expect.num.branch (.ext ⟨type, UInt8.ofNat (Handle.minimalUnsigned n).length,
      Handle.minimalUnsigned n⟩) = some (.ok (.num (UInt64.ofNat n))) := by
    simp only [Expect.branch, hvalue, Fault.ok_bind]
  rw [hobj, expect, mpackExpect_taken hbranch]

theorem expect_strings (strs : List BString) :
    expect (some (.array (strs.map Obj.string))) .strlist 0 = .ok (.strlist strs) := by
  have hstrs : (strs.map Obj.string).mapM Obj.str? = some strs := by
    induction strs with
    | nil => rfl
    | cons str strs ih => simp [Obj.str?, ih]
  have hbranch : Expect.strlist.branch (.array (strs.map Obj.string)) =
      some (.ok (.strlist strs)) := by
    simp only [Expect.branch, mpackArrayToBlist, hstrs]
  rw [expect, mpackExpect_taken hbranch]

theorem toInt_ofNat_small {n : Nat} (h : n < 2 ^ 31) : toInt (UInt64.ofNat n) = n := by
  have hbits : (UInt64.ofNat n).toUInt32.toInt32 = Int32.ofNat n := by
    rw [UInt64.toUInt32_ofNat']
    rfl
  rw [toInt, hbits]
  exact Int32.toInt_ofNat_of_lt h

/-- What `handle_line_event` goes on with is the event. -/
theorem applyLineEvent_event (mem : Memory) (bdata : Notification.Bufdata) {e : Edit}
    (bufnum tick : Obj)
    {buffer : Buffer} {empty : Bool} (hfirst : e.first < 2 ^ 31) (hlast : e.last < 2 ^ 31)
    (hrun : TagHighlight.handleLineEvent bdata.buffer e.event = .ok (buffer, empty)) :
    Notification.handleLineEvent mem bdata [bufnum, tick, .unsigned (UInt64.ofNat e.first),
      .unsigned (UInt64.ofNat e.last), .array (e.newStrings.map Obj.string), .boolean false] =
        .ok { bdata with buffer := buffer } := by
  have hevent : LineEvent.mk (toInt (UInt64.ofNat e.first)) (toInt (UInt64.ofNat e.last))
      (e.newStrings.map some) false = e.event := by
    rw [toInt_ofNat_small hfirst, toInt_ofNat_small hlast, Edit.event]
  unfold Notification.handleLineEvent applyLineEvent
  simp only [List.length_cons, List.length_nil, element, List.getElem?_cons_succ,
    List.getElem?_cons_zero, Notification.ok_bind, Memory.boolean, expect_unsigned, expect_strings,
    newStrings, Memory.num, hevent, hrun]
  rfl

/-- An edit of a known buffer is applied to its lines. -/
theorem handle_notice (mem : Memory) {s : ConnState} {b : UInt32} {e : Edit} {w : Wire}
    {bdata : Notification.Bufdata} {text : List BString} (hw : IsNotice b e w)
    (hb : b.toNat < 2 ^ 16)
    (he : e.last < 2 ^ 31) (hfind : s.buffers b = some bdata)
    (hrep : Represents bdata.buffer.lines text) (hne : text ≠ []) (hvalid : e.Valid text)
    (htold : e.Told text) :
    ∃ obj bdata', w.obj = .array obj ∧ Represents bdata'.buffer.lines (nvimEdit e text) ∧
      s.handle mem obj =
        .ok { s with buffers := Function.update s.buffers b (some bdata') } := by
  obtain ⟨buffer, empty, hrun, hrep'⟩ := hrep.handleLineEvent hne hvalid htold
  cases hw with
  | @mk form nameForm paramsForm stringsForm type handle tick first last n strings htype hhandle htick
      hfirst hlast hstrings =>
      have hnum : (UInt64.ofNat b.toNat).toUInt32 = b := by
        rw [UInt64.toUInt32_ofNat', UInt32.ofNat_toNat]
      let bdata' : Notification.Bufdata :=
        { buffer := buffer, ctick := exchangeTick bdata.ctick (UInt64.ofNat n) }
      have hline := applyLineEvent_event mem { bdata with ctick := bdata'.ctick } handle.obj tick.obj
        (Nat.lt_of_le_of_lt hvalid.1 he) he hrun
      refine ⟨_, bdata', rfl, hrep', ?_⟩
      have hupdate : handleBufferUpdate mem bdata (.arr [handle.obj, tick.obj, first.obj, last.obj,
          .array (itemObjs strings), .boolean false]) .bufLines = .ok bdata' := by
        rw [isUnsigned_obj htick, isUnsigned_obj hfirst, isUnsigned_obj hlast, isString_objs hstrings]
        rw [isUnsigned_obj htick] at hline
        unfold handleBufferUpdate
        simp only [elementOf, element, List.getElem?_cons_succ, List.getElem?_cons_zero,
          Notification.ok_bind, expect_unsigned, Memory.num]
        exact hline
      have hmessage : handleNvimMessage mem s.buffers [type.obj,
          .string (bt "nvim_buf_lines_event"), .array [handle.obj, tick.obj, first.obj, last.obj,
            .array (itemObjs strings), .boolean false]] = .ok (.updated b bdata') := by
        rw [isUnsigned_obj htype]
        unfold handleNvimMessage handleNvimNotification
        rw [mpackIndex_lt rfl, mpackIndex_lt rfl]
        simp only [Notification.ok_bind, expect_unsigned, Memory.num, expect_mpackArray]
        rw [if_pos (show (UInt64.ofNat 2).toUInt32 = 2 from rfl),
          idEvent_name (show _ = some (Obj.string EventType.bufLines.name) from rfl)]
        unfold dispatch notify
        simp only [Notification.ok_bind, elementOf, element, List.getElem?_cons_zero,
          expect_handle hhandle hb, Memory.num, hnum, hfind, hupdate]
        rfl
      have hobjs : itemObjs [type, .string nameForm (bt "nvim_buf_lines_event"),
          .array paramsForm [handle, tick, first, last, .array stringsForm strings, .boolean false]] =
        [type.obj, .string (bt "nvim_buf_lines_event"), .array [handle.obj, tick.obj, first.obj,
          last.obj, .array (itemObjs strings), .boolean false]] := rfl
      rw [ConnState.handle, hobjs, hmessage]
      rfl

/-! ### Requests and their counts

A request has its count in it, so no two requests are the same message, and from the message alone
it can be told which call it is.  Of the bytes to Neovim it is said that they are whole requests,
one after the other, and then perhaps a piece of one more; `Midway` says whose piece that is, and
that nobody else is in the middle of writing.
-/

theorem requestId_message (r : Request) {count : Nat} (h : count < 2 ^ 31) :
    requestId (r.message count) = some count := by
  have hcount : (Int32.ofNat count).toInt = count := Int32.toInt_ofNat_of_lt h
  rw [Request.message, Api.requestMessage, requestId, hcount, Int.toNat_natCast]

/-- Different counts make different messages. -/
theorem message_inj {r r' : Request} {c c' : Nat} (hc : c < 2 ^ 31) (hc' : c' < 2 ^ 31)
    (h : r.message c = r'.message c') : c = c' := by
  have hid := congrArg requestId h
  rwa [requestId_message r hc, requestId_message r' hc', Option.some.injEq] at hid

/-- The bytes are those of this message. -/
def Spoken (data : BString) (m : Message) : Prop :=
  data ≠ [] ∧ ∀ rest, TagHighlight.hear (data ++ rest) = some (m, rest)

theorem spoken_request (r : Request) (count : Nat) : ∃ root,
    r.pack (Int32.ofNat count) = .ok (some root) ∧ Spoken root.data (r.message count) := by
  obtain ⟨root, hpack, -, hheard⟩ := r.heard (Int32.ofNat count)
  refine ⟨root, hpack, fun hnil => ?_, hheard⟩
  have hempty := hheard []
  rw [hnil] at hempty
  cases hempty

/-- Neovim does not hear a piece of them. -/
theorem Spoken.piece {piece rest : BString} {m : Message} (h : Spoken (piece ++ rest) m)
    (hrest : rest ≠ []) : TagHighlight.hear piece = none := by
  have hwhole := h.2 []
  rw [List.append_nil] at hwhole
  exact hear_piece hwhole hrest

/-- All calls, by their counts. -/
abbrev Calls := List (Nat × Request)

theorem Calls.lt {made : Calls} {c : Nat} {p : Nat × Request} (h : made[c]? = some p) :
    c < made.length := (List.getElem?_eq_some_iff.mp h).1

theorem Calls.append {made : Calls} {c : Nat} {p : Nat × Request} (h : made[c]? = some p)
    (new : Nat × Request) : (made ++ [new])[c]? = some p :=
  (List.getElem?_append_left (Calls.lt h)).trans h

theorem Calls.last (made : Calls) (new : Nat × Request) :
    (made ++ [new])[made.length]? = some new := by simp

/-- The calls, those of them that were written, and what the threads have of them. -/
structure Numbers (program : WaitState (List Obj)) (made : Calls) (packs : Nat → BString)
    (written : List (Nat × Request)) : Prop where
  count : made.length = program.count
  callers : ∀ th c, (program.callers th).last = some c → ∃ r, made[c]? = some (th, r)
  counted : ∀ th c, program.callers th = .counted c → ∃ r, made[c]? = some (th, r) ∧
    Spoken (packs th) (r.message c) ∧ c ∉ written.map Prod.fst
  mine : ∀ p ∈ written, ∃ th, made[p.1]? = some (th, p.2)
  once : (written.map Prod.fst).Nodup

/-- What was written of the request that a thread is in the middle of, if there is one. -/
inductive Midway (callers : Nat → Caller (List Obj)) (packs : Nat → BString) (written : Nat → Nat) :
    BString → Prop where
  | none (hwritten : ∀ t, written t = 0) : Midway callers packs written []
  | one {t count : Nat} {piece rest : BString} (hcaller : callers t = .counted count)
      (hpack : packs t = piece ++ rest) (hrest : rest ≠ []) (hwritten : written t = piece.length)
      (hothers : ∀ t', t' ≠ t → written t' = 0) : Midway callers packs written piece

namespace Midway

variable {callers callers' : Nat → Caller (List Obj)} {packs packs' : Nat → BString}
  {written : Nat → Nat} {piece : BString}

/-- It is the one of the thread that writes. -/
theorem of_alone {t : Nat} (h : Midway callers packs written piece)
    (halone : ∀ t', t' ≠ t → written t' = 0) :
    packs t = piece ++ (packs t).drop (written t) ∧ written t = piece.length := by
  cases h with
  | none hwritten =>
      rw [hwritten t]
      exact ⟨rfl, rfl⟩
  | @one t' count piece rest hcaller hpack hrest hwritten hothers =>
      by_cases ht : t' = t
      · subst ht
        rw [hwritten, hpack, List.drop_left]
        exact ⟨rfl, rfl⟩
      · -- The other one has written nothing.
        have hpiece : piece = [] := List.eq_nil_of_length_eq_zero (hwritten ▸ halone t' ht)
        rw [hpiece, hothers t (Ne.symm ht)]
        exact ⟨rfl, rfl⟩

/-- It is nothing, if no thread is in the middle of a request. -/
theorem eq_nil (h : Midway callers packs written piece) (hnone : ∀ t, written t = 0) :
    piece = [] := by
  cases h with
  | none hwritten => rfl
  | one hcaller hpack hrest hwritten hothers =>
      exact List.eq_nil_of_length_eq_zero (hwritten ▸ hnone _)

/-- The threads that have counted go on as they are. -/
theorem imp (h : Midway callers packs written piece)
    (hkept : ∀ t count, callers t = .counted count →
      callers' t = .counted count ∧ packs' t = packs t) : Midway callers' packs' written piece := by
  cases h with
  | none hwritten => exact .none hwritten
  | one hcaller hpack hrest hwritten hothers =>
      obtain ⟨hcaller', hpack'⟩ := hkept _ _ hcaller
      exact .one hcaller' (hpack'.trans hpack) hrest hwritten hothers

/-- Neovim does not hear it. -/
theorem hear_eq_none {program : WaitState (List Obj)} {made : Calls}
    {before : List (Nat × Request)} (h : Midway program.callers packs written piece)
    (hnumbers : Numbers program made packs before) : TagHighlight.hear piece = Option.none := by
  cases h with
  | none hwritten => rfl
  | one hcaller hpack hrest hwritten hothers =>
      obtain ⟨r, -, hspoken, -⟩ := hnumbers.counted _ _ hcaller
      rw [hpack] at hspoken
      exact hspoken.piece hrest

end Midway

/-- The requests `gone` were heard, and `unheard` are in the bytes, before a piece of another. -/
structure Outgoing (made : Calls) (output : BString) (pending : List (Nat × Message))
    (heard : List Message) (answered : List (Message × Wire)) (gone unheard : List (Nat × Request))
    (piece : BString) : Prop where
  bytes : ∃ datas, List.Forall₂ (fun data p => Spoken data (p.2.message p.1)) datas unheard ∧
    output = datas.flatten ++ piece
  messages : heard = gone.map fun p => p.2.message p.1
  ids : ∀ p ∈ pending, ∃ th r, made[p.1]? = some (th, r) ∧ p.2 = r.message p.1
  parts : (pending.map Prod.snd ++ answered.map Prod.fst).Perm heard

/-! ### Answers and edits

What comes from Neovim is a list of parcels, answers and edits in the order in which they were
sent.  An answer knows the call it belongs to, and an edit that was not read yet is one that the
lines of its buffer are still behind.  Nothing is asked of the order in which requests are
answered.
-/

/-- The answer is one that Neovim gave to the request with its id, which was this call. -/
def AnswerOf (made : Calls) (answered : List (Message × Wire)) (obj : Response (List Obj)) : Prop :=
  ∃ t r reply, made[obj.msgid]? = some (t, r) ∧ (r.message obj.msgid, reply) ∈ answered ∧
    reply.obj = .array obj.result

/-- A message of Neovim that is not read. -/
inductive Parcel where
  | reply (id : Nat) (w : Wire)
  | notice (b : UInt32) (e : Edit) (w : Wire)

namespace Parcel

def wire : Parcel → Wire
  | reply _ w => w
  | notice _ _ w => w

/-- The response, as the system of the counts has it. -/
def response : Parcel → Option (Response (List Obj))
  | reply id (.array _ items) => some { msgid := id, result := itemObjs items }
  | _ => none

/-- The edit, if it is one of this buffer. -/
def editOf (b : UInt32) : Parcel → Option Edit
  | notice b' e _ => if b' = b then some e else none
  | reply _ _ => none

def Ok (opened : UInt32 → Option Opened) (made : Calls) (answered : List (Message × Wire)) :
    Parcel → Prop
  | reply id w => w.Ok ∧ IsReply id w ∧
      ∃ t r, made[id]? = some (t, r) ∧ (r.message id, w) ∈ answered
  | notice b e w => w.Ok ∧ IsNotice b e w ∧ b.toNat < 2 ^ 16 ∧ e.last < 2 ^ 31 ∧ (opened b).isSome

end Parcel

/-- An edit that the lines can follow. -/
def Followed (e : Edit) (text : List BString) : Prop := e.Valid text ∧ e.Told text

/-- The lines are Neovim's but for the edits `rest`, which they can follow. -/
def Follows (o : Opened) (buffer : Option Notification.Bufdata) (edits rest : List Edit) : Prop :=
  ∃ bdata seen, buffer = some bdata ∧ edits = seen ++ rest ∧
    Represents bdata.buffer.lines (o.textAfter seen) ∧ EachEdit Followed rest (o.textAfter seen)

theorem nvimEdits_append (edits : List Edit) (e : Edit) (text : List BString) :
    nvimEdits (edits ++ [e]) text = nvimEdit e (nvimEdits edits text) := by
  induction edits generalizing text with
  | nil => rfl
  | cons e' edits ih => exact ih _

theorem eachEdit_append {P : Edit → List BString → Prop} {edits : List Edit} {e : Edit}
    {text : List BString} (h : EachEdit P edits text) (he : P e (nvimEdits edits text)) :
    EachEdit P (edits ++ [e]) text := by
  induction edits generalizing text with
  | nil => exact ⟨he, trivial⟩
  | cons e' edits ih => exact ⟨h.1, ih h.2 he⟩

theorem textAfter_append (o : Opened) (seen rest : List Edit) :
    o.textAfter (seen ++ rest) = nvimEdits rest (o.textAfter seen) := by
  simp only [Opened.textAfter]
  generalize o.text = text
  induction seen generalizing text with
  | nil => rfl
  | cons e seen ih => exact ih _

theorem textAfter_ne_nil (o : Opened) (edits : List Edit) : o.textAfter edits ≠ [] := by
  induction edits using List.reverseRecOn with
  | nil => exact o.nonempty
  | append_singleton edits e _ =>
      rw [Opened.textAfter, nvimEdits_append]
      exact nvimEdit_ne_nil e _

/-- One more edit. -/
theorem Follows.edit {o : Opened} {buffer : Option Notification.Bufdata}
    {edits rest : List Edit} {e : Edit}
    (h : Follows o buffer edits rest) (he : Followed e (o.textAfter edits)) :
    Follows o buffer (edits ++ [e]) (rest ++ [e]) := by
  obtain ⟨bdata, seen, hbuffer, rfl, hrep, heach⟩ := h
  rw [textAfter_append] at he
  exact ⟨bdata, seen, hbuffer, List.append_assoc _ _ _, hrep, eachEdit_append heach he⟩

/-! ### The two systems

For each action it is shown that related states stay related, where the system of the counts makes
the same step or none at all.  It makes none when a piece of a request is written that is not the
last one, when Neovim hears a request, when bytes of Neovim come through, and for an edit, for
none of these changes what the counts are about.
-/

/-- The two systems agree, with `flight` in the bytes from Neovim. -/
structure Related (opened : UInt32 → Option Opened) (s : ConnState) (t : WaitState (List Obj))
    (gone unheard : List (Nat × Request)) (piece : BString) (flight : List Parcel) : Prop where
  program : t = s.program.withFlight (s.pending.map Prod.fst ++ unheard.map Prod.fst)
    (flight.filterMap Parcel.response)
  numbers : Numbers s.program s.made s.packs (gone ++ unheard)
  midway : Midway s.program.callers s.packs s.written piece
  outgoing : Outgoing s.made s.output s.pending s.heard s.answered gone unheard piece
  input : s.input = stream (flight.map Parcel.wire)
  parcels : ∀ p ∈ flight, p.Ok opened s.made s.answered
  objects : s.program.Objects (AnswerOf s.made s.answered)
  buffers : ∀ b o, opened b = some o →
    Follows o (s.buffers b) (s.edits b) (flight.filterMap (Parcel.editOf b))
  understood : s.failed = false

section Steps

variable {mem : Memory} {opened : UInt32 → Option Opened} {s s' : ConnState}
  {t : WaitState (List Obj)} {gone unheard : List (Nat × Request)} {piece : BString}
  {flight : List Parcel}

theorem AnswerOf.append {made : Calls} {answered : List (Message × Wire)}
    {obj : Response (List Obj)} (h : AnswerOf made answered obj) (new : Nat × Request) :
    AnswerOf (made ++ [new]) answered obj := by
  obtain ⟨t, r, reply, hr, hmem, hobj⟩ := h
  exact ⟨t, r, reply, Calls.append hr new, hmem, hobj⟩

theorem Parcel.Ok.append {made : Calls} {answered : List (Message × Wire)} {p : Parcel}
    (h : p.Ok opened made answered) (new : Nat × Request) : p.Ok opened (made ++ [new]) answered := by
  cases p with
  | reply id w =>
      obtain ⟨hok, hreply, t, r, hr, hmem⟩ := h
      exact ⟨hok, hreply, t, r, Calls.append hr new, hmem⟩
  | notice b e w => exact h

theorem Numbers.call {program : WaitState (List Obj)} {made : Calls} {packs : Nat → BString}
    {written : List (Nat × Request)} (h : Numbers program made packs written) {th : Nat}
    {r : Request} {data : BString} (hspoken : Spoken data (r.message program.count)) :
    Numbers { program.setCaller th (.counted program.count) with count := program.count + 1 }
      (made ++ [(th, r)]) (Function.update packs th data) written := by
  have hnew : (made ++ [(th, r)])[program.count]? = some (th, r) := h.count ▸ Calls.last made _
  constructor
  · rw [List.length_append, h.count]
    rfl
  · intro th' c hc
    by_cases hth : th' = th
    · subst hth
      simp only [WaitState.setCaller, Function.update_self, Caller.last, Option.some.injEq] at hc
      exact ⟨r, hc ▸ hnew⟩
    · simp only [WaitState.setCaller, Function.update_of_ne hth] at hc
      obtain ⟨r', hr'⟩ := h.callers th' c hc
      exact ⟨r', Calls.append hr' _⟩
  · intro th' c hc
    by_cases hth : th' = th
    · subst hth
      simp only [WaitState.setCaller, Function.update_self, Caller.counted.injEq] at hc
      subst hc
      refine ⟨r, hnew, by rwa [Function.update_self], fun hmem => ?_⟩
      -- What was written is older.
      obtain ⟨p, hp, heq⟩ := List.mem_map.mp hmem
      obtain ⟨th', hp'⟩ := h.mine p hp
      have hlt := Calls.lt hp'
      rw [heq, h.count] at hlt
      exact Nat.lt_irrefl _ hlt
    · simp only [WaitState.setCaller, Function.update_of_ne hth] at hc
      obtain ⟨r', hr', hspoken', hnot⟩ := h.counted th' c hc
      exact ⟨r', Calls.append hr' _, by rwa [Function.update_of_ne hth], hnot⟩
  · intro p hp
    obtain ⟨th', hp'⟩ := h.mine p hp
    exact ⟨th', Calls.append hp' _⟩
  · exact h.once

theorem Related.call (h : Related opened s t gone unheard piece flight) {th : Nat} {r : Request}
    (hs : s.call th r = some s') : ∃ t', t.incCount th = some t' ∧
      Related opened s' t' gone unheard piece flight := by
  obtain ⟨program, hinc, hs⟩ := Option.bind_eq_some_iff.mp hs
  obtain ⟨root, hpack, hspoken⟩ := spoken_request r s.program.count
  simp only [hpack] at hs
  obtain rfl := Option.some.inj hs
  obtain ⟨hidle, rfl⟩ := WaitState.incCount_cases hinc
  refine ⟨_, h.program ▸ WaitState.incCount_withFlight hinc _ _, rfl, h.numbers.call hspoken, ?_, ?_,
    h.input, fun p hp => (h.parcels p hp).append _, ?_, h.buffers, h.understood⟩
  · refine h.midway.imp fun th' c hcaller => ?_
    -- The one that makes a call is not in the middle of another.
    have hne : th' ≠ th := by
      rintro rfl
      rw [hcaller] at hidle
      cases hidle
    simp only [WaitState.setCaller, Function.update_of_ne hne, hcaller, and_self]
  · refine ⟨h.outgoing.bytes, h.outgoing.messages, fun p hp => ?_, h.outgoing.parts⟩
    obtain ⟨th', r', hr', heq⟩ := h.outgoing.ids p hp
    exact ⟨th', r', Calls.append hr' _, heq⟩
  · have hobjects := h.objects.imp fun obj hobj => AnswerOf.append hobj (th, r)
    exact ⟨hobjects.threads, hobjects.nodes, WaitState.Objects.setCaller_returned hobjects (by simp)⟩

theorem Numbers.write {program : WaitState (List Obj)} {made : Calls} {packs : Nat → BString}
    {written : List (Nat × Request)} (h : Numbers program made packs written) {th c : Nat}
    {r : Request} (hr : made[c]? = some (th, r)) (hnot : c ∉ written.map Prod.fst) :
    Numbers (program.setCaller th (.written c)) made packs (written ++ [(c, r)]) := by
  refine ⟨h.count, fun th' c' hc' => ?_, fun th' c' hc' => ?_, fun p hp => ?_, ?_⟩
  · by_cases hth : th' = th
    · subst hth
      simp only [WaitState.setCaller, Function.update_self, Caller.last, Option.some.injEq] at hc'
      exact ⟨r, hc' ▸ hr⟩
    · simp only [WaitState.setCaller, Function.update_of_ne hth] at hc'
      exact h.callers th' c' hc'
  · by_cases hth : th' = th
    · subst hth
      simp [WaitState.setCaller] at hc'
    · simp only [WaitState.setCaller, Function.update_of_ne hth] at hc'
      obtain ⟨r', hr', hspoken', hnot'⟩ := h.counted th' c' hc'
      refine ⟨r', hr', hspoken', ?_⟩
      rw [List.map_append, List.mem_append, not_or]
      refine ⟨hnot', fun hmem => hth ?_⟩
      obtain rfl := List.mem_singleton.mp hmem
      exact (Prod.mk.inj (Option.some.inj (hr'.symm.trans hr))).1
  · rcases List.mem_append.mp hp with hp | hp
    · exact h.mine p hp
    · obtain rfl := List.mem_singleton.mp hp
      exact ⟨th, hr⟩
  · rw [List.map_append]
    refine List.nodup_append.mpr ⟨h.once, List.nodup_singleton _, fun a ha b hb heq => ?_⟩
    obtain rfl := List.mem_singleton.mp hb
    exact hnot (heq ▸ ha)

/-- A piece of a request goes into the bytes; with the last one, it is written. -/
theorem Related.write (h : Related opened s t gone unheard piece flight) {th k : Nat}
    (halone : Alone s th) (hs : s.write th k = some s') :
    (∃ piece', Related opened s' t gone unheard piece' flight) ∨
      ∃ t' p, t.write th = some t' ∧ Related opened s' t' gone (unheard ++ [p]) [] flight := by
  unfold ConnState.write at hs
  cases hcaller : s.program.callers th <;> simp only [hcaller] at hs
  case counted c =>
    obtain ⟨r, hr, hspoken, hnot⟩ := h.numbers.counted th c hcaller
    obtain ⟨hpack, hpiece⟩ := h.midway.of_alone halone
    obtain ⟨datas, hdatas, houtput⟩ := h.outgoing.bytes
    generalize (s.packs th).drop (s.written th) = rest at hs hpack
    by_cases hlast : rest.drop (k + 1) = []
    · rw [if_pos hlast] at hs
      obtain rfl := Option.some.inj hs
      have hall : rest.take (k + 1) = rest := List.take_of_length_le (List.drop_eq_nil_iff.mp hlast)
      refine .inr ⟨_, (c, r), ?_, rfl, ?_, .none fun th' => ?_, ?_, h.input, h.parcels, ?_, h.buffers,
        h.understood⟩
      · rw [h.program, WaitState.write, WaitState.withFlight]
        simp only [hcaller, List.map_append, List.map_cons, List.map_nil, List.append_assoc]
        rfl
      · rw [← List.append_assoc]
        exact h.numbers.write hr hnot
      · by_cases hth : th' = th
        · simp only [hth, Function.update_self]
        · simp only [Function.update_of_ne hth, halone th' hth]
      · refine ⟨⟨datas ++ [s.packs th], ?_, ?_⟩, h.outgoing.messages, h.outgoing.ids,
          h.outgoing.parts⟩
        · exact List.rel_append hdatas (.cons hspoken .nil)
        · rw [houtput, hall, List.flatten_append, List.flatten_singleton, List.append_nil,
            List.append_assoc, ← hpack]
      · exact ⟨h.objects.threads, h.objects.nodes,
          WaitState.Objects.setCaller_returned h.objects (by simp)⟩
    · rw [if_neg hlast] at hs
      obtain rfl := Option.some.inj hs
      have hlen : k + 1 < rest.length := by
        have hne := mt List.drop_eq_nil_of_le hlast
        omega
      refine .inl ⟨piece ++ rest.take (k + 1), h.program, h.numbers, ?_, ?_, h.input, h.parcels,
        h.objects, h.buffers, h.understood⟩
      · have hpieces : s.packs th = (piece ++ rest.take (k + 1)) ++ rest.drop (k + 1) := by
          rw [List.append_assoc, List.take_append_drop]
          exact hpack
        refine .one hcaller hpieces hlast ?_ fun th' hth => ?_
        · simp only [Function.update_self, List.length_append, hpiece, List.length_take,
            Nat.min_eq_left (Nat.le_of_lt hlen)]
        · simp only [Function.update_of_ne hth, halone th' hth]
      · refine ⟨⟨datas, hdatas, ?_⟩, h.outgoing.messages, h.outgoing.ids, h.outgoing.parts⟩
        rw [houtput, List.append_assoc]
  all_goals exact absurd hs (by simp)

/-- Neovim hears the request that was written first. -/
theorem Related.hear (h : Related opened s t gone unheard piece flight) (hcount : s.program.count < 2 ^ 31)
    (hs : s.hear = some s') : ∃ p rest, unheard = p :: rest ∧
      Related opened s' t (gone ++ [p]) rest piece flight := by
  obtain ⟨⟨m, left⟩, hheard, hs⟩ := Option.bind_eq_some_iff.mp hs
  obtain ⟨datas, hdatas, houtput⟩ := h.outgoing.bytes
  rw [houtput] at hheard
  cases hdatas with
  | nil =>
      -- There is at most a piece of a request.
      rw [List.flatten_nil, List.nil_append, h.midway.hear_eq_none h.numbers] at hheard
      cases hheard
  | @cons data p datas rest hspoken hdatas =>
      obtain ⟨th, hp⟩ := h.numbers.mine p (by simp)
      have hid := requestId_message p.2 (Nat.lt_trans (Calls.lt hp) (h.numbers.count ▸ hcount))
      rw [List.flatten_cons, List.append_assoc, hspoken.2] at hheard
      obtain ⟨rfl, rfl⟩ := Prod.mk.inj (Option.some.inj hheard)
      simp only [hid] at hs
      obtain rfl := Option.some.inj hs
      refine ⟨p, rest, rfl, ?_, ?_, h.midway, ?_, h.input, h.parcels, h.objects, h.buffers, h.understood⟩
      · rw [h.program]
        simp
      · rw [List.append_assoc]
        exact h.numbers
      · refine ⟨⟨datas, hdatas, rfl⟩, ?_, fun q hq => ?_, ?_⟩
        · rw [h.outgoing.messages, List.map_append]
          rfl
        · rcases List.mem_append.mp hq with hq | hq
          · exact h.outgoing.ids q hq
          · obtain rfl := List.mem_singleton.mp hq
            exact ⟨th, p.2, hp, rfl⟩
        · have hparts := h.outgoing.parts.append_right [p.2.message p.1]
          refine List.Perm.trans ?_ hparts
          simp only [List.map_append, List.map_cons, List.map_nil, List.append_assoc]
          exact List.perm_append_comm.append_left _

/-- Neovim answers one of the requests it has heard. -/
theorem Related.answer (h : Related opened s t gone unheard piece flight) {i : Nat} {reply : Wire}
    (hok : reply.Ok) (hreply : ∀ id m, s.pending[i]? = some (id, m) → IsReply id reply)
    (hs : s.answer i reply = some s') : ∃ t' obj p, t.answer i obj = some t' ∧
      Related opened s' t' gone unheard piece (flight ++ [p]) := by
  obtain ⟨⟨id, m⟩, hi, hs⟩ := Option.bind_eq_some_iff.mp hs
  obtain rfl := Option.some.inj hs
  obtain ⟨hlt, hget⟩ := List.getElem?_eq_some_iff.mp hi
  obtain ⟨th, r, hr, hm⟩ := h.outgoing.ids (id, m) (List.mem_of_getElem? hi)
  obtain rfl : m = r.message id := hm
  have hreply' := hreply id _ hi
  obtain ⟨form, items, hitems⟩ : ∃ form items, reply = .array form items := by
    cases hreply' with
    | mk => exact ⟨_, _, rfl⟩
  have hmono : ∀ q ∈ s.answered, q ∈ s.answered ++ [(r.message id, reply)] := fun q hq =>
    List.mem_append_left _ hq
  refine ⟨_, itemObjs items, .reply id reply, ?_, rfl, h.numbers, h.midway, ?_, ?_, fun p hp => ?_,
    ?_, ?_, h.understood⟩
  · rw [h.program, WaitState.answer, WaitState.withFlight]
    have hrequest : (s.pending.map Prod.fst ++ unheard.map Prod.fst)[i]? = some id := by
      rw [List.getElem?_append_left (by rwa [List.length_map]), List.getElem?_map, hi]
      rfl
    have herase : (s.pending.map Prod.fst ++ unheard.map Prod.fst).eraseIdx i =
        (s.pending.eraseIdx i).map Prod.fst ++ unheard.map Prod.fst := by
      rw [List.eraseIdx_append_of_lt_length (by rwa [List.length_map]), List.eraseIdx_map]
    simp only [hrequest, Option.bind_eq_bind, Option.bind_some, herase, List.filterMap_append,
      hitems, List.filterMap_cons, Parcel.response, List.filterMap_nil]
    rfl
  · refine ⟨h.outgoing.bytes, h.outgoing.messages, fun p hp =>
      h.outgoing.ids p (List.mem_of_mem_eraseIdx hp), ?_⟩
    refine List.Perm.trans ?_ h.outgoing.parts
    have hperm := (List.getElem_cons_eraseIdx_perm hlt).map Prod.snd
    rw [hget, List.map_cons] at hperm
    rw [List.map_append, List.map_cons, List.map_nil, ← List.append_assoc]
    exact (List.perm_append_singleton _ _).trans (hperm.append_right _)
  · rw [h.input, List.map_append, List.map_cons, List.map_nil, stream, stream, List.flatMap_append]
    simp [Parcel.wire]
  · rcases List.mem_append.mp hp with hp | hp
    · have hold := h.parcels p hp
      cases p with
      | reply id' w =>
          obtain ⟨hw, hisreply, th', r', hr', hmem⟩ := hold
          exact ⟨hw, hisreply, th', r', hr', hmono _ hmem⟩
      | notice b e w => exact hold
    · obtain rfl := List.mem_singleton.mp hp
      exact ⟨hok, hreply', th, r, hr, List.mem_append_right _ (List.mem_singleton_self _)⟩
  · refine h.objects.imp fun obj hobj => ?_
    obtain ⟨t', r', w, hr', hmem, hobj⟩ := hobj
    exact ⟨t', r', w, hr', hmono _ hmem, hobj⟩
  · intro b o ho
    rw [List.filterMap_append, show [Parcel.reply id reply].filterMap (Parcel.editOf b) = [] from rfl,
      List.append_nil]
    exact h.buffers b o ho

/-- Neovim tells of an edit. -/
theorem Related.edit (h : Related opened s t gone unheard piece flight) {b : UInt32} {e : Edit}
    {notice : Wire} {o : Opened} (hok : notice.Ok) (hnotice : IsNotice b e notice)
    (hb : b.toNat < 2 ^ 16) (hlast : e.last < 2 ^ 31) (ho : opened b = some o)
    (hfollowed : Followed e (o.textAfter (s.edits b))) :
    Related opened (s.edit b e notice) t gone unheard piece (flight ++ [.notice b e notice]) := by
  have hedits : ∀ b', [Parcel.notice b e notice].filterMap (Parcel.editOf b') =
      if b = b' then [e] else [] := by
    intro b'
    by_cases hb' : b = b' <;> simp [Parcel.editOf, hb']
  refine ⟨?_, h.numbers, h.midway, h.outgoing, ?_, fun p hp => ?_, h.objects, fun b' o' ho' => ?_,
    h.understood⟩
  · rw [h.program, List.filterMap_append,
      show [Parcel.notice b e notice].filterMap Parcel.response = [] from rfl, List.append_nil]
    rfl
  · rw [ConnState.edit, h.input, List.map_append, List.map_cons, List.map_nil, stream, stream,
      List.flatMap_append]
    simp [Parcel.wire]
  · rcases List.mem_append.mp hp with hp | hp
    · exact h.parcels p hp
    · obtain rfl := List.mem_singleton.mp hp
      exact ⟨hok, hnotice, hb, hlast, by rw [ho]; rfl⟩
  · have hold := h.buffers b' o' ho'
    rw [List.filterMap_append, hedits b']
    by_cases hb' : b = b'
    · subst hb'
      obtain rfl : o = o' := Option.some.inj (ho.symm.trans ho')
      rw [if_pos rfl, ConnState.edit]
      simp only [Function.update_self]
      exact hold.edit hfollowed
    · rw [if_neg hb', List.append_nil, ConnState.edit]
      simp only [Function.update_of_ne (Ne.symm hb')]
      exact hold

theorem bytes_ne_nil {w : Wire} (h : w.Ok) : w.bytes ≠ [] := by
  intro hnil
  have hread := w.doDecode_obj h []
  rw [hnil] at hread
  cases hread

/-- The event loop takes the message that is next, when it is there. -/
theorem receive_next {w : Wire} {obj : List Obj} {rest : BString} {result : ConnState}
    (hok : w.Ok) (hobj : w.obj = .array obj) (hinput : s.input = w.bytes ++ rest)
    (hs : s.receive mem = some s')
    (hhandle : ConnState.handle mem
      { s with input := rest, arrived := s.arrived - w.bytes.length } obj = .ok result) :
    s' = result := by
  have hne : s.input ≠ [] := by
    rw [hinput]
    exact List.append_ne_nil_of_left_ne_nil (bytes_ne_nil hok) _
  have hlen : (w.bytes ++ rest).length - rest.length = w.bytes.length := by
    rw [List.length_append, Nat.add_sub_cancel]
  have hread := w.doDecode_obj hok rest
  rw [ConnState.receive, if_neg hne, hinput, hread, hobj] at hs
  simp only [hlen, hhandle] at hs
  exact (Option.some.inj (Option.ite_none_left_eq_some.mp hs).2).symm

theorem responseThread_reply (mem : Memory) {id : Nat} (type : Wire) {msgid : Wire}
    (error result : Wire) (hid : id < 2 ^ 31) (hmsgid : IsUnsigned id msgid) :
    ConnState.responseThread mem (itemObjs [type, msgid, error, result]) =
      .ok { fd := responseFd stdinFileno
            obj := { msgid := id, result := itemObjs [type, msgid, error, result] }
            stage := .popping } := by
  have hnat : (UInt64.ofNat id).toNat = id := UInt64.toNat_ofNat_of_lt' (Nat.lt_trans hid (by decide))
  have hindex : mpackIndex (.array (itemObjs [type, msgid, error, result])) 1 =
      .ok (some (.unsigned (UInt64.ofNat id))) := by
    rw [← isUnsigned_obj hmsgid]
    exact mpackIndex_lt rfl
  rw [ConnState.responseThread, hindex]
  simp only [Notification.ok_bind, expect_unsigned, Memory.num, hnat]

/-- A response is read, and a thread looks for its node. -/
theorem Related.receive_reply {id : Nat} {w : Wire}
    (h : Related opened s t gone unheard piece (.reply id w :: flight)) (hcount : s.program.count < 2 ^ 31)
    (hs : s.receive mem = some s') : ∃ t', t.receive = some t' ∧
      Related opened s' t' gone unheard piece flight := by
  obtain ⟨hok, hreply, th, r, hr, hmem⟩ := h.parcels _ List.mem_cons_self
  have hid : id < 2 ^ 31 := Nat.lt_trans (Calls.lt hr) (h.numbers.count ▸ hcount)
  cases hreply with
  | @mk form type msgid error result htype hmsgid =>
      have hmessage : handleNvimMessage mem s.buffers (itemObjs [type, msgid, error, result]) =
          .ok .response := by
        have hindex : mpackIndex (.array (itemObjs [type, msgid, error, result])) 0 =
            .ok (some (.unsigned (UInt64.ofNat 1))) := by
          rw [← isUnsigned_obj htype]
          exact mpackIndex_lt rfl
        unfold handleNvimMessage
        rw [hindex]
        simp only [Notification.ok_bind, expect_unsigned, Memory.num]
        rfl
      have hthread := responseThread_reply mem type error result hid hmsgid
      obtain rfl := receive_next hok rfl h.input hs <| by
        rw [ConnState.handle, hmessage]
        simp only [Notification.ok_bind, hthread]
        rfl
      refine ⟨_, ?_, rfl, ?_, h.midway, h.outgoing, rfl, fun p hp => h.parcels p (List.mem_cons_of_mem _ hp), ?_,
        h.buffers, h.understood⟩
      · rw [h.program]
        rfl
      · exact ⟨h.numbers.count, h.numbers.callers, h.numbers.counted, h.numbers.mine, h.numbers.once⟩
      · refine ⟨fun thread hthread => ?_, h.objects.nodes, h.objects.returned⟩
        rcases List.mem_append.mp hthread with hthread | hthread
        · exact h.objects.threads thread hthread
        · obtain rfl := List.mem_singleton.mp hthread
          exact ⟨th, r, _, hr, hmem, rfl⟩

/-- A notification is read, and the lines follow. -/
theorem Related.receive_notice {b : UInt32} {e : Edit} {w : Wire}
    (h : Related opened s t gone unheard piece (.notice b e w :: flight)) (hs : s.receive mem = some s') :
    Related opened s' t gone unheard piece flight := by
  obtain ⟨hok, hnotice, hb, hlast, hopened⟩ := h.parcels _ List.mem_cons_self
  obtain ⟨o, ho⟩ := Option.isSome_iff_exists.mp hopened
  obtain ⟨bdata, seen, hbuffer, hedits, hrep, heach⟩ := h.buffers b o ho
  rw [List.filterMap_cons, show (Parcel.notice b e w).editOf b = some e from if_pos rfl] at hedits heach
  obtain ⟨⟨hvalid, htold⟩, hrest⟩ := heach
  obtain ⟨obj, bdata', hobj, hrep', hhandle⟩ := handle_notice mem
    (s := { s with input := stream (flight.map Parcel.wire), arrived := s.arrived - w.bytes.length })
    hnotice hb hlast hbuffer hrep (textAfter_ne_nil o seen) hvalid htold
  obtain rfl := receive_next hok hobj h.input hs hhandle
  refine ⟨h.program, h.numbers, h.midway, h.outgoing, rfl, fun p hp => h.parcels p (List.mem_cons_of_mem _ hp),
    h.objects, fun b' o' ho' => ?_, h.understood⟩
  have hstep : nvimEdit e (o.textAfter seen) = o.textAfter (seen ++ [e]) :=
    (nvimEdits_append seen e o.text).symm
  by_cases hb' : b' = b
  · subst hb'
    obtain rfl : o = o' := Option.some.inj (ho.symm.trans ho')
    refine ⟨bdata', seen ++ [e], Function.update_self _ _ _, ?_, hstep ▸ hrep', hstep ▸ hrest⟩
    rw [hedits, List.append_assoc]
    rfl
  · have hother := h.buffers b' o' ho'
    rw [List.filterMap_cons,
      show (Parcel.notice b e w).editOf b' = none from if_neg (Ne.symm hb')] at hother
    simpa only [Function.update_of_ne hb'] using hother

/-- The event loop reads something, if there is something. -/
theorem ne_nil_of_receive (hs : s.receive mem = some s') : s.input ≠ [] := by
  intro hnil
  rw [ConnState.receive, if_pos hnil] at hs
  cases hs

/-- More bytes come through, and nothing else. -/
theorem Related.arrive (h : Related opened s t gone unheard piece flight) {k : Nat}
    (hs : s.arrive k = some s') : Related opened s' t gone unheard piece flight := by
  obtain ⟨-, hs⟩ := Option.ite_none_right_eq_some.mp hs
  obtain rfl := Option.some.inj hs
  exact ⟨h.program, h.numbers, h.midway, h.outgoing, h.input, h.parcels, h.objects, h.buffers,
    h.understood⟩

/-- Threads wait and look on, and nothing is moved. -/
theorem Related.thread (h : Related opened s t gone unheard piece flight) {action : WaitAction (List Obj)}
    {program : WaitState (List Obj)} (hlocal : isLocal action = true)
    (hs : s.program.step action = some program) : ∃ t', t.step action = some t' ∧
      Related opened { s with program := program } t' gone unheard piece flight := by
  have hcallers := WaitState.callers_step hlocal hs
  refine ⟨_, h.program ▸ WaitState.step_withFlight hlocal hs _ _, rfl, ?_,
    h.midway.imp fun th c hc => ⟨((hcallers th).2 c).mpr hc, rfl⟩, h.outgoing, h.input,
    h.parcels, h.objects.step hlocal hs, h.buffers, h.understood⟩
  refine ⟨h.numbers.count.trans (WaitState.count_step hlocal hs).symm, fun th c hc => ?_,
    fun th c hc => ?_, h.numbers.mine, h.numbers.once⟩
  · exact h.numbers.callers th c ((hcallers th).1 ▸ hc)
  · exact h.numbers.counted th c (((hcallers th).2 c).mp hc)

end Steps

/-! ### Every state

The simulation carries the invariant of the counts over to the bytes, and what is to be had of the
connection is read off the two halves: that no message was misunderstood and that the lines
follow, from the relation; that a call returns what was answered to it, from the invariant.
-/

/-- What the system of the counts says, of the counts that the messages have. -/
def Agree (opened : UInt32 → Option Opened) (s : ConnState) (t : WaitState (List Obj)) : Prop :=
  ∃ gone unheard piece flight, Related opened s t gone unheard piece flight

theorem agree_init (mem : Memory) (opened : UInt32 → Option Opened) :
    Agree opened (connection mem opened).init (waitSystem (List Obj)).init := by
  refine ⟨[], [], [], [], rfl, ?_, .none fun _ => rfl, ?_, rfl, by simp, ?_, fun b o ho => ?_, rfl⟩
  · exact ⟨rfl, by simp [connection, WaitState.init, Caller.last], by simp [connection, WaitState.init],
      by simp, by simp⟩
  · exact ⟨⟨[], .nil, rfl⟩, rfl, by simp [connection], List.Perm.refl _⟩
  · exact ⟨by simp [connection, WaitState.init], by simp [connection, WaitState.init],
      by simp [connection, WaitState.init]⟩
  · refine ⟨o.bdata, [], ?_, rfl, o.mirrors, trivial⟩
    show (opened b).map Opened.bdata = some o.bdata
    rw [ho]
    rfl

/-- A run of the bytes is a run of the counts. -/
theorem connection_simulates (mem : Memory) (opened : UInt32 → Option Opened) :
    TransitionSystem.Simulation (connection mem opened) (waitSystem (List Obj)) (Fair opened)
      CountFits (Agree opened) where
  init := agree_init mem opened
  step := by
    intro s a s' t hreached hrel hfair hs
    obtain ⟨gone, unheard, piece, flight, h⟩ := hrel
    have hinv := hreached.invariant (I := WaitState.Inv) WaitState.inv_init
      fun _ _ _ hinv hfits hs => hinv.step hfits hs
    have hcount : s.program.count < 2 ^ 31 := by
      have hsmall := hinv.small
      rwa [h.program] at hsmall
    have hfits : ∀ th, s.program.count < 2 ^ 31 - 1 → CountFits t (.incCount th) := by
      intro th hlt
      rw [h.program]
      exact hlt
    cases a with
    | call th r =>
        obtain ⟨t', hstep, hrel⟩ := h.call hs
        exact .one (b := .incCount th) (hfits th hfair) hstep ⟨_, _, _, _, hrel⟩
    | write th k =>
        rcases h.write hfair hs with ⟨piece', hrel⟩ | ⟨t', p, hstep, hrel⟩
        · exact .stay ⟨_, _, _, _, hrel⟩
        · exact .one (b := .write th) trivial hstep ⟨_, _, _, _, hrel⟩
    | hear =>
        obtain ⟨p, rest, -, hrel⟩ := h.hear hcount hs
        exact .stay ⟨_, _, _, _, hrel⟩
    | answer i reply =>
        obtain ⟨t', obj, p, hstep, hrel⟩ := h.answer hfair.1 hfair.2 hs
        exact .one (b := .answer i obj) trivial hstep ⟨_, _, _, _, hrel⟩
    | edit b e notice =>
        obtain ⟨hok, hnotice, hb, hlast, o, ho, hfollowed⟩ := hfair
        obtain rfl := Option.some.inj hs
        exact .stay ⟨_, _, _, _, h.edit hok hnotice hb hlast ho hfollowed⟩
    | arrive k => exact .stay ⟨_, _, _, _, h.arrive hs⟩
    | receive =>
        cases flight with
        | nil => exact absurd h.input (ne_nil_of_receive hs)
        | cons p flight =>
            cases p with
            | reply id w =>
                obtain ⟨t', hstep, hrel⟩ := h.receive_reply hcount hs
                exact .one (b := .receive) trivial hstep ⟨_, _, _, _, hrel⟩
            | notice b e w => exact .stay ⟨_, _, _, _, h.receive_notice hs⟩
    | thread action =>
        obtain ⟨hlocal, hs⟩ : isLocal action = true ∧
            (s.program.step action).bind (fun program => some { s with program := program }) = some s' := by
          simp only [connection, ConnState.step] at hs
          split at hs
          · exact ⟨‹_›, hs⟩
          · cases hs
        obtain ⟨program, hstep, hs⟩ := Option.bind_eq_some_iff.mp hs
        obtain rfl := Option.some.inj hs
        obtain ⟨t', hstep', hrel⟩ := h.thread hlocal hstep
        refine .one (b := action) ?_ hstep' ⟨_, _, _, _, hrel⟩
        cases action <;> trivial

/-- Whole requests are legible. -/
theorem legible_flatten {datas : List BString} {requests : List (Nat × Request)}
    (h : List.Forall₂ (fun data p => Spoken data (p.2.message p.1)) datas requests) :
    Legible datas.flatten := by
  induction h with
  | nil => exact .nil
  | @cons data p datas requests hspoken _ ih =>
      rw [List.flatten_cons]
      exact .next (hspoken.2 datas.flatten) ih

/-- What the two systems agree on is what is to be had of the connection. -/
theorem Agree.faithful {opened : UInt32 → Option Opened} {s : ConnState} {t : WaitState (List Obj)}
    (h : Agree opened s t) (hinv : t.Inv) : Faithful opened s := by
  obtain ⟨gone, unheard, piece, flight, h⟩ := h
  have hcount : s.program.count < 2 ^ 31 := by
    have hsmall := hinv.small
    rwa [h.program] at hsmall
  have hgone : ∀ p ∈ gone, p.1 < 2 ^ 31 := by
    intro p hp
    obtain ⟨th, hp⟩ := h.numbers.mine p (List.mem_append_left _ hp)
    exact Nat.lt_trans (Calls.lt hp) (h.numbers.count ▸ hcount)
  have honce : s.heard.Nodup := by
    rw [h.outgoing.messages]
    have hcounts : (gone.map Prod.fst).Nodup := by
      have := h.numbers.once
      rw [List.map_append] at this
      exact (List.nodup_append.mp this).1
    refine List.Nodup.map_on (fun p hp q hq heq => ?_) (List.Nodup.of_map _ hcounts)
    exact List.inj_on_of_nodup_map hcounts hp hq (message_inj (hgone p hp) (hgone q hq) heq)
  constructor
  · exact h.understood
  · intro hnone
    obtain ⟨datas, hdatas, houtput⟩ := h.outgoing.bytes
    rw [houtput, h.midway.eq_nil hnone, List.append_nil]
    exact legible_flatten hdatas
  · intro m hm
    rw [h.outgoing.messages] at hm
    obtain ⟨p, hp, rfl⟩ := List.mem_map.mp hm
    obtain ⟨th, hp⟩ := h.numbers.mine p (List.mem_append_left _ hp)
    exact ⟨p.1, th, p.2, hp, rfl⟩
  · exact honce
  · exact (List.nodup_append.mp (h.outgoing.parts.nodup_iff.mpr honce)).2.1
  · intro th count obj hth
    obtain ⟨r, hr⟩ := h.numbers.callers th count (by rw [hth]; rfl)
    have hid : obj.msgid = count := by
      refine hinv.returned th count obj ?_
      rw [h.program]
      exact hth
    obtain ⟨th', r', reply, hr', hmem, hobj⟩ := h.objects.returned th count obj hth
    rw [hid] at hr' hmem
    obtain rfl := (Prod.mk.inj (Option.some.inj (hr.symm.trans hr'))).2
    exact ⟨r, reply, hr, hmem, hobj⟩
  · intro b o ho
    obtain ⟨bdata, seen, hbuffer, hedits, hrep, -⟩ := h.buffers b o ho
    refine ⟨bdata, seen, _, hbuffer, hedits, hrep, fun hnil => ?_⟩
    cases hflight : flight with
    | nil => rfl
    | cons p rest =>
        have hinput := h.input
        have hp := h.parcels p (hflight ▸ List.mem_cons_self)
        have hok : p.wire.Ok := by
          cases p with
          | reply id w => exact hp.1
          | notice b e w => exact hp.1
        rw [hnil, hflight, List.map_cons, stream_cons] at hinput
        exact absurd (List.append_eq_nil_iff.mp hinput.symm).1 (bytes_ne_nil hok)

/--
**The connection is faithful.**  Whatever threads make calls and however their steps, Neovim's
and the event loop's mingle, every message is understood.  Neovim hears the requests that were
made, each once, and answers each once; a call returns what Neovim answered to it; and the lines
of every buffer are Neovim's as of some edit, and the present ones when all is read.
-/
theorem connection_faithful (mem : Memory) (opened : UInt32 → Option Opened) {s : ConnState}
    (h : (connection mem opened).Reached (Fair opened) s) : Faithful opened s := by
  obtain ⟨t, ht, hagree⟩ := (connection_simulates mem opened).reached h
  refine hagree.faithful ?_
  exact ht.invariant (I := WaitState.Inv) WaitState.inv_init
    fun _ _ _ hinv hfits hs => hinv.step hfits hs

/-! ### A run

One thread asks for the list of buffers.  Its request is written in two pieces.  Neovim hears it,
and edits a buffer; before all of this has come through, it answers as well, and the event loop
then reads the one and the other.
-/

/-- `nvim_list_bufs`. -/
def listBufs : Request where
  fn := bt "nvim_list_bufs"
  params := []
  pack := Api.nvimListBufs.request exactLib
  heard count := Api.plainCall_says exactLib_grows "nvim_list_bufs" count (by decide)

/-- Buffer 1 with the line `hello`. -/
def helloOpened : Opened where
  bdata := { buffer := helloBuffer, ctick := 2 }
  text := [[104, 101, 108, 108, 111]]
  mirrors := represents_hello
  nonempty := by decide

def openedOne : UInt32 → Option Opened := fun b => if b = 1 then some helloOpened else none

/-- The line becomes `a`. -/
def toA : Edit := { first := 0, last := 1, newStrings := [[97]] }

def noticeA : Wire :=
  .array .fix [.posFixint 2, .string .fix (bt "nvim_buf_lines_event"), .array .fix
    [.fixext .w8 0 [1], .uint .w8 3, .posFixint 0, .posFixint 1, .array .fix [.string .fix [97]],
      .boolean false]]

def replyA : Wire := .array .fix [.posFixint 1, .posFixint 0, .nil, .array .fix [.fixext .w8 0 [1]]]

/-- The call is packed, and has the count 0. -/
def called : ConnState :=
  { (connection zeros openedOne).init with
    program := { (WaitState.init.setCaller 0 (.counted 0) : WaitState (List Obj)) with count := 1 }
    made := [(0, listBufs)]
    packs := Function.update (fun _ => []) 0 ([0x94, 0, 0, 0xAE] ++ bt "nvim_list_bufs" ++ [0x90]) }

theorem called_step :
    (connection zeros openedOne).step (connection zeros openedOne).init (.call 0 listBufs) =
      some called := by
  have hpack : ∃ root, listBufs.pack (Int32.ofNat 0) = .ok (some root) ∧
      root.data = [0x94, 0, 0, 0xAE] ++ bt "nvim_list_bufs" ++ [0x90] := ⟨_, rfl, by decide +kernel⟩
  obtain ⟨root, hpack, hdata⟩ := hpack
  have hinc : (WaitState.init : WaitState (List Obj)).incCount 0 = some called.program := rfl
  rw [show (connection zeros openedOne).step (connection zeros openedOne).init (.call 0 listBufs) =
    ConnState.call (connection zeros openedOne).init 0 listBufs from rfl, ConnState.call]
  refine (congrArg (Option.bind · _) hinc).trans ?_
  simp only [Option.bind_some]
  rw [show listBufs.pack (Int32.ofNat (connection zeros openedOne).init.program.count) =
    .ok (some root) from hpack]
  simp only [hdata]
  rfl

/-- It is written in two pieces, and before it is answered there is an edit. -/
def editDuringCall : List ConnAction :=
  [.write 0 4, .write 0 99, .hear, .edit 1 toA noticeA, .arrive 9, .answer 0 replyA, .arrive 99,
    .receive, .receive, .thread (.append 0 0), .thread (.pop 0), .thread (.compare 0),
    .thread (.deliver 0), .thread (.wake 0), .thread (.resume 0)]

theorem noticeA_isNotice : IsNotice 1 toA noticeA :=
  .mk (n := 3) rfl rfl rfl rfl rfl (.cons rfl .nil)

theorem replyA_isReply : IsReply 0 replyA := .mk rfl rfl

theorem noticeA_ok : noticeA.Ok := by
  have hname : (bt "nvim_buf_lines_event").length = 20 := rfl
  simp [noticeA, Wire.Ok, ItemsOk, SeqForm.Holds, StrForm.Holds, Width.size, hname]

theorem replyA_ok : replyA.Ok := by
  simp [replyA, Wire.Ok, ItemsOk, SeqForm.Holds, Width.size]

theorem toA_fair : ∃ o, openedOne 1 = some o ∧ toA.Valid (o.textAfter []) ∧
    toA.Told (o.textAfter []) :=
  ⟨helloOpened, rfl, ⟨by decide, by decide⟩, by simp [toA, Edit.Told]⟩

theorem connection_faithful_editDuringCall : ∃ s,
    (connection zeros openedOne).run (connection zeros openedOne).init
        (.call 0 listBufs :: editDuringCall) = some s ∧
      s.input = [] ∧ (∃ obj, s.program.callers 0 = .returned 0 obj) ∧ Faithful openedOne s := by
  have hmeets : (connection zeros openedOne).Meets (Fair openedOne)
      (connection zeros openedOne).init (.call 0 listBufs :: editDuringCall) := by
    refine (TransitionSystem.meets_cons called_step).mpr ⟨show 0 < 2 ^ 31 - 1 by decide, ?_⟩
    refine (TransitionSystem.meets_cons rfl).mpr ⟨fun t' _ => rfl, ?_⟩
    refine (TransitionSystem.meets_cons rfl).mpr ⟨fun t' ht' => Function.update_of_ne ht' _ _, ?_⟩
    refine (TransitionSystem.meets_cons rfl).mpr ⟨trivial, ?_⟩
    refine (TransitionSystem.meets_cons rfl).mpr
      ⟨⟨noticeA_ok, noticeA_isNotice, by decide, by decide, toA_fair⟩, ?_⟩
    refine (TransitionSystem.meets_cons rfl).mpr ⟨trivial, ?_⟩
    refine (TransitionSystem.meets_cons rfl).mpr ⟨⟨replyA_ok, fun id m h => ?_⟩, ?_⟩
    · obtain rfl : 0 = id := congrArg Prod.fst (Option.some.inj h)
      exact replyA_isReply
    · refine TransitionSystem.meets_of_forall (fun a ha s => ?_) _
      simp only [List.mem_cons, List.not_mem_nil, or_false] at ha
      rcases ha with rfl | rfl | rfl | rfl | rfl | rfl | rfl | rfl | rfl <;> trivial
  obtain ⟨s, hrun, hinput, hreturned⟩ : ∃ s,
      (connection zeros openedOne).run called editDuringCall = some s ∧ s.input = [] ∧
        ∃ obj, s.program.callers 0 = .returned 0 obj := ⟨_, rfl, rfl, _, rfl⟩
  have hall : (connection zeros openedOne).run (connection zeros openedOne).init
      (.call 0 listBufs :: editDuringCall) = some s := by
    rw [TransitionSystem.run_cons, called_step, Option.bind_some]
    exact hrun
  exact ⟨s, hall, hinput, hreturned, connection_faithful zeros openedOne
    (TransitionSystem.Reached.init.run hmeets hall)⟩

end Connection

end TagHighlight
