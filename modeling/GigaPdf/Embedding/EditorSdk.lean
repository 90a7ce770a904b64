import GigaPdf.Lib.LiveIteration
import Mathlib.Logic.Function.Basic

/-!
# The embedded editor

The class of `packages/embed/src/index.ts` that puts the editor in a frame of another site. The
frame posts events and the class calls the listeners of each. `getFile` waits for the file with a
listener of its own in two lists, and the first of the two that is called takes both out, from
within the loop that called it.
-/

namespace GigaPdf.EmbedSdk

inductive GigaPdfEventName
  | ready
  | save
  | exported
  | error
  | pageChange
  | complete
deriving DecidableEq, Repr

/-- An event with its data. -/
inductive Event
  | ready
  | save (documentId : String) (pageCount : Nat)
  | exported (blob format : String)
  | error (code message : String)
  | pageChange (page total : Nat)
  | complete (blob : String)
deriving DecidableEq, Repr

def Event.name : Event → GigaPdfEventName
  | .ready => .ready
  | .save _ _ => .save
  | .exported _ _ => .exported
  | .error _ _ => .error
  | .pageChange _ _ => .pageChange
  | .complete _ => .complete

inductive GigaPdfOutboundMessage
  | save
  | exported (format : String)
  | load (documentId : String)
  | getFile
deriving DecidableEq, Repr

/-- A callback of the site, the one `on` adds behind each for `ready`, or one of the two of a call
of `getFile`. -/
inductive Listener
  | callback (id : Nat)
  | wrappedCb
  | onComplete (call : Nat)
  | onError (call : Nat)
deriving DecidableEq, Repr

inductive Outcome
  | resolved (blob : String)
  | rejected (message : String)
deriving DecidableEq, Repr

structure Message where
  origin : String
  type : String
  /-- `none` for a name the switch does not list. -/
  event : Option Event
deriving DecidableEq, Repr

structure GigaPdfEditor where
  allowedOrigin : String
  /-- Whether the options have an `onComplete`. -/
  onComplete : Bool
  listeners : GigaPdfEventName → List Listener
  /-- Whether the frame has a `contentWindow`. -/
  mounted : Bool
  destroyed : Bool
  /-- How often `getFile` was called. -/
  calls : Nat
  settled : List (Nat × Outcome)
  /-- The listeners called so far. -/
  heard : List (Listener × Event)
  handed : List String
  posted : List GigaPdfOutboundMessage

def construct (allowedOrigin : String) (onComplete : Bool) : GigaPdfEditor :=
  ⟨allowedOrigin, onComplete, fun _ => [], false, false, 0, [], [], [], []⟩

namespace GigaPdfEditor

def on (s : GigaPdfEditor) (event : GigaPdfEventName) (listener : Listener) : GigaPdfEditor :=
  if s.destroyed then s
  else
    let added := s.listeners event ++ [listener]
    { s with
      listeners := Function.update s.listeners event
        (if event = .ready then added ++ [.wrappedCb] else added) }

def off (s : GigaPdfEditor) (event : GigaPdfEventName) (listener : Listener) : GigaPdfEditor :=
  { s with listeners := Function.update s.listeners event ((s.listeners event).erase listener) }

def settle (s : GigaPdfEditor) (call : Nat) (outcome : Outcome) : GigaPdfEditor :=
  { s with settled := s.settled ++ [(call, outcome)] }

/-- A listener is called; the site's own do nothing to the editor. -/
def hear (s : GigaPdfEditor) (listener : Listener) (event : Event) : GigaPdfEditor :=
  let s := { s with heard := s.heard ++ [(listener, event)] }
  match listener, event with
  | .onComplete call, .complete blob =>
    ((s.off .complete (.onComplete call)).off .error (.onError call)).settle call
      (.resolved blob)
  | .onError call, .error _ message =>
    ((s.off .complete (.onComplete call)).off .error (.onError call)).settle call
      (.rejected message)
  | _, _ => s

theorem off_listeners (s : GigaPdfEditor) (event : GigaPdfEventName) (listener : Listener)
    (name : GigaPdfEventName) :
    (s.off event listener).listeners name =
      if name = event then (s.listeners name).erase listener else s.listeners name := by
  split
  · rename_i same
    subst same
    exact Function.update_self ..
  · rename_i other
    exact Function.update_of_ne other ..

theorem off_listeners_length (s : GigaPdfEditor) (event : GigaPdfEventName) (listener : Listener)
    (name : GigaPdfEventName) :
    ((s.off event listener).listeners name).length ≤ (s.listeners name).length := by
  rw [off_listeners]
  split
  · exact List.length_erase_le
  · exact Nat.le_refl _

theorem hear_listeners_length (s : GigaPdfEditor) (listener : Listener) (event : Event)
    (name : GigaPdfEventName) :
    ((s.hear listener event).listeners name).length ≤ (s.listeners name).length := by
  have both : ∀ s : GigaPdfEditor, ∀ call, (((s.off .complete (.onComplete call)).off .error
      (.onError call)).listeners name).length ≤ (s.listeners name).length := fun s call =>
    Nat.le_trans (off_listeners_length _ _ _ _) (off_listeners_length _ _ _ _)
  cases listener <;> cases event <;> first | exact Nat.le_refl _ | exact both _ _

/-- `for (const cb of callbacks) cb(payload)`. -/
def each (s : GigaPdfEditor) (event : Event) (i : Nat) : GigaPdfEditor :=
  if h : i < (s.listeners event.name).length then
    (s.hear (s.listeners event.name)[i] event).each event (i + 1)
  else s
termination_by (s.listeners event.name).length - i
decreasing_by
  have := s.hear_listeners_length (s.listeners event.name)[i] event event.name
  omega

def handleMessage (s : GigaPdfEditor) (message : Message) : GigaPdfEditor :=
  if s.destroyed then s
  else if message.origin ≠ s.allowedOrigin then s
  else if message.type ≠ "gigapdf:event" then s
  else
    match message.event with
    | none => s
    | some (.complete blob) =>
      let s := s.each (.complete blob) 0
      if s.onComplete then { s with handed := s.handed ++ [blob] } else s
    | some event => s.each event 0

/-- The session token was refused. -/
def sessionFailed (s : GigaPdfEditor) (message : String) : GigaPdfEditor :=
  s.each (.error "SESSION_TOKEN_FAILED" message) 0

/-- The session token came, and the frame is put in the page. -/
def mount (s : GigaPdfEditor) : GigaPdfEditor :=
  if s.destroyed then s else { s with mounted := true }

def postCommand (s : GigaPdfEditor) (command : GigaPdfOutboundMessage) : GigaPdfEditor :=
  if s.destroyed then s
  else if !s.mounted then s
  else { s with posted := s.posted ++ [command] }

def getFile (s : GigaPdfEditor) : GigaPdfEditor :=
  let call := s.calls
  let s := { s with calls := s.calls + 1 }
  if s.destroyed then s.settle call (.rejected "[GigaPdf] Editor is destroyed")
  else ((s.on .complete (.onComplete call)).on .error (.onError call)).postCommand .getFile

def destroy (s : GigaPdfEditor) : GigaPdfEditor :=
  if s.destroyed then s
  else { s with destroyed := true, mounted := false, listeners := fun _ => [] }

end GigaPdfEditor

inductive Action
  | on (event : GigaPdfEventName) (callback : Nat)
  | off (event : GigaPdfEventName) (callback : Nat)
  | exportPdf (format : String)
  | savePdf
  | loadDocument (documentId : String)
  | getFile
  | mounted
  | sessionFailed (message : String)
  | posted (message : Message)
  | destroy
deriving DecidableEq, Repr

def step (s : GigaPdfEditor) : Action → GigaPdfEditor
  | .on event callback => s.on event (.callback callback)
  | .off event callback => s.off event (.callback callback)
  | .exportPdf format => s.postCommand (.exported format)
  | .savePdf => s.postCommand .save
  | .loadDocument documentId => s.postCommand (.load documentId)
  | .getFile => s.getFile
  | .mounted => s.mount
  | .sessionFailed message => s.sessionFailed message
  | .posted message => s.handleMessage message
  | .destroy => s.destroy

def run (s : GigaPdfEditor) (actions : List Action) : GigaPdfEditor := actions.foldl step s

/-- The call that a listener in the list of an event settles. -/
def Listener.call? : GigaPdfEventName → Listener → Option Nat
  | .complete, .onComplete call => some call
  | .error, .onError call => some call
  | _, _ => none

def Listener.once (event : GigaPdfEventName) (listener : Listener) : Bool :=
  (listener.call? event).isSome

namespace GigaPdfEditor

/-- The calls that wait in the list of an event. -/
def waiting (s : GigaPdfEditor) (event : GigaPdfEventName) : List Nat :=
  (s.listeners event).filterMap (·.call? event)

def settledCalls (s : GigaPdfEditor) : List Nat := s.settled.map Prod.fst

end GigaPdfEditor

theorem call?_inj {event : GigaPdfEventName} {a b : Listener} {call : Nat}
    (ha : a.call? event = some call) (hb : b.call? event = some call) : a = b := by
  cases event <;> cases a <;> cases b <;> simp_all [Listener.call?]

theorem filterMap_erase {α β : Type*} [DecidableEq α] [DecidableEq β] {f : α → Option β}
    (inj : ∀ {a b c}, f a = some c → f b = some c → a = b) {a : α} {c : β} (ha : f a = some c)
    (items : List α) : (items.erase a).filterMap f = (items.filterMap f).erase c := by
  induction items with
  | nil => rfl
  | cons b items ih =>
    by_cases same : b = a
    · subst same
      simp [ha]
    · have other : f b ≠ some c := fun hb => same (inj hb ha)
      rw [List.erase_cons_tail (by simpa using same)]
      cases hb : f b with
      | none => simp [hb, ih]
      | some d =>
        have apart : d ≠ c := fun eq => other (eq ▸ hb)
        simp [hb, ih, List.erase_cons_tail, apart]

/-- What a listener does. -/
theorem hear_cases (s : GigaPdfEditor) (listener : Listener) (event : Event) :
    (listener.call? event.name = none ∧
      s.hear listener event = { s with heard := s.heard ++ [(listener, event)] }) ∨
    ∃ call outcome, listener.call? event.name = some call ∧
      s.hear listener event =
        ((({ s with heard := s.heard ++ [(listener, event)] } : GigaPdfEditor).off .complete
          (.onComplete call)).off .error (.onError call)).settle call outcome := by
  cases listener <;> cases event <;>
    first
    | exact .inl ⟨rfl, rfl⟩
    | exact .inr ⟨_, _, rfl, rfl⟩

theorem hear_listeners (s : GigaPdfEditor) (listener : Listener) (event : Event) :
    (s.hear listener event).listeners event.name =
      if listener.once event.name then (s.listeners event.name).erase listener
      else s.listeners event.name := by
  cases listener <;> cases event <;>
    simp [GigaPdfEditor.hear, GigaPdfEditor.settle, GigaPdfEditor.off_listeners, Listener.once,
      Listener.call?, Event.name]

theorem hear_heard (s : GigaPdfEditor) (listener : Listener) (event : Event) :
    (s.hear listener event).heard = s.heard ++ [(listener, event)] := by
  obtain ⟨-, same⟩ | ⟨call, outcome, -, same⟩ := hear_cases s listener event
  · rw [same]
  · rw [same]
    rfl

/-- The loop over the list of the event. -/
theorem each_loop (s : GigaPdfEditor) (event : Event) (i : Nat) (called : List Listener) :
    ∃ more, (s.each event i).heard = s.heard ++ more.map (·, event) ∧
      LiveIteration.loop (Listener.once event.name) (s.listeners event.name) i called =
        ((s.each event i).listeners event.name, called ++ more) := by
  fun_induction GigaPdfEditor.each s event i generalizing called with
  | case1 s i inside ih =>
    obtain ⟨more, heard, looped⟩ := ih (called ++ [(s.listeners event.name)[i]])
    refine ⟨(s.listeners event.name)[i] :: more, ?_, ?_⟩
    · rw [heard, hear_heard]
      simp
    · rw [LiveIteration.loop, dif_pos inside]
      rw [hear_listeners] at looped
      split <;> simp_all
  | case2 s i outside =>
    refine ⟨[], by simp, ?_⟩
    rw [LiveIteration.loop, dif_neg outside, List.append_nil]

theorem postCommand_cases (s : GigaPdfEditor) (command : GigaPdfOutboundMessage) :
    ∃ posted, s.postCommand command = { s with posted } := by
  unfold GigaPdfEditor.postCommand
  split
  · exact ⟨s.posted, rfl⟩
  · split
    · exact ⟨s.posted, rfl⟩
    · exact ⟨_, rfl⟩

/-- Messages with another origin or another type are dropped. -/
def heeds (allowedOrigin : String) (message : Message) : Option Event :=
  if message.origin = allowedOrigin ∧ message.type = "gigapdf:event" then message.event else none

theorem handleMessage_cases (s : GigaPdfEditor) (message : Message) :
    ((s.destroyed = true ∨ heeds s.allowedOrigin message = none) ∧ s.handleMessage message = s) ∨
    ∃ event handed, s.destroyed = false ∧ heeds s.allowedOrigin message = some event ∧
      s.handleMessage message = { s.each event 0 with handed } := by
  by_cases here : s.destroyed = true
  · exact .inl ⟨.inl here, if_pos here⟩
  rw [GigaPdfEditor.handleMessage, if_neg here]
  by_cases origin : message.origin = s.allowedOrigin
  · rw [if_neg (not_not.mpr origin)]
    by_cases type : message.type = "gigapdf:event"
    · rw [if_neg (not_not.mpr type), heeds, if_pos ⟨origin, type⟩]
      have here : s.destroyed = false := eq_false_of_ne_true here
      cases message.event with
      | none => exact .inl ⟨.inr rfl, rfl⟩
      | some event =>
        refine .inr ⟨event, ?_⟩
        cases event with
        | complete blob =>
          by_cases asked : (s.each (.complete blob) 0).onComplete = true
          · exact ⟨_, here, rfl, if_pos asked⟩
          · exact ⟨_, here, rfl, if_neg asked⟩
        | _ => exact ⟨_, here, rfl, rfl⟩
    · rw [if_pos type]
      exact .inl ⟨.inr (if_neg (type ·.2)), rfl⟩
  · rw [if_pos origin]
    exact .inl ⟨.inr (if_neg (origin ·.1)), rfl⟩

theorem hear_frame (s : GigaPdfEditor) (listener : Listener) (event : Event) :
    (s.hear listener event).allowedOrigin = s.allowedOrigin ∧
      (s.hear listener event).destroyed = s.destroyed ∧
      (s.hear listener event).calls = s.calls := by
  obtain ⟨-, same⟩ | ⟨call, outcome, -, same⟩ := hear_cases s listener event <;> rw [same]
  · exact ⟨rfl, rfl, rfl⟩
  · exact ⟨rfl, rfl, rfl⟩

theorem each_frame (s : GigaPdfEditor) (event : Event) (i : Nat) :
    (s.each event i).allowedOrigin = s.allowedOrigin ∧
      (s.each event i).destroyed = s.destroyed ∧ (s.each event i).calls = s.calls := by
  fun_induction GigaPdfEditor.each s event i with
  | case1 s i inside ih =>
    obtain ⟨origin, destroyed, calls⟩ := hear_frame s (s.listeners event.name)[i] event
    rwa [origin, destroyed, calls] at ih
  | case2 s i outside => exact ⟨rfl, rfl, rfl⟩

theorem on_frame (s : GigaPdfEditor) (event : GigaPdfEventName) (listener : Listener) :
    (s.on event listener).allowedOrigin = s.allowedOrigin ∧
      (s.on event listener).destroyed = s.destroyed ∧ (s.on event listener).calls = s.calls := by
  rw [GigaPdfEditor.on]
  split <;> exact ⟨rfl, rfl, rfl⟩

theorem postCommand_frame (s : GigaPdfEditor) (command : GigaPdfOutboundMessage) :
    (s.postCommand command).allowedOrigin = s.allowedOrigin ∧
      (s.postCommand command).destroyed = s.destroyed ∧
      (s.postCommand command).calls = s.calls := by
  obtain ⟨posted, same⟩ := postCommand_cases s command
  rw [same]
  exact ⟨rfl, rfl, rfl⟩

theorem getFile_frame (s : GigaPdfEditor) :
    s.getFile.allowedOrigin = s.allowedOrigin ∧ s.getFile.destroyed = s.destroyed ∧
      s.getFile.calls = s.calls + 1 := by
  rw [GigaPdfEditor.getFile]
  split
  · exact ⟨rfl, rfl, rfl⟩
  · simp only [postCommand_frame, on_frame, and_self]

theorem step_frame (s : GigaPdfEditor) (action : Action) :
    (step s action).allowedOrigin = s.allowedOrigin ∧
      (step s action).destroyed = (s.destroyed || decide (action = .destroy)) ∧
      (step s action).calls = s.calls + if action = .getFile then 1 else 0 := by
  cases action with
  | on event id => simpa [step] using on_frame s event (.callback id)
  | off event id => simp [step, GigaPdfEditor.off]
  | exportPdf | savePdf | loadDocument => simpa [step] using postCommand_frame s _
  | getFile => simpa [step] using getFile_frame s
  | mounted =>
    rw [step, GigaPdfEditor.mount]
    split <;> simp
  | sessionFailed message =>
    simpa [step, GigaPdfEditor.sessionFailed] using each_frame s (.error _ message) 0
  | posted message =>
    rw [step]
    obtain ⟨-, same⟩ | ⟨event, handed, -, -, same⟩ := handleMessage_cases s message <;> rw [same]
    · simp
    · simpa using each_frame s event 0
  | destroy =>
    rw [step, GigaPdfEditor.destroy]
    split <;> simp_all

theorem run_frame (s : GigaPdfEditor) (actions : List Action) :
    (run s actions).allowedOrigin = s.allowedOrigin ∧
      (run s actions).destroyed = (s.destroyed || decide (.destroy ∈ actions)) ∧
      (run s actions).calls = s.calls + actions.count .getFile := by
  induction actions generalizing s with
  | nil => simp [run]
  | cons action actions ih =>
    obtain ⟨origin, destroyed, calls⟩ := ih (step s action)
    obtain ⟨origin', destroyed', calls'⟩ := step_frame s action
    refine ⟨origin.trans origin', ?_, ?_⟩
    · refine destroyed.trans ?_
      rw [destroyed', Bool.or_assoc, ← Bool.decide_or]
      refine congrArg (s.destroyed || ·) (decide_eq_decide.mpr ?_)
      rw [List.mem_cons, eq_comm]
    · refine calls.trans ?_
      rw [calls', List.count_cons, Nat.add_assoc, Nat.add_comm (List.count _ _)]
      simp

theorem run_append (s : GigaPdfEditor) (before after : List Action) :
    run s (before ++ after) = run (run s before) after :=
  List.foldl_append

end GigaPdf.EmbedSdk
