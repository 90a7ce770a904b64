import GigaPdf.Embedding.EditorSdk
import Mathlib.Data.List.Infix
import Mathlib.Data.List.Perm.Subperm

/-!
# Waiting for the file

Every call of `getFile` waits in two lists until the first event of either kind reaches it, and the
loop over a list passes over each listener that stands behind one that just took itself out.
-/

namespace GigaPdf.EmbedSdk

/-- Every call of `getFile` waits in both lists or is settled, once; an editor that is destroyed
listens to nothing. -/
structure Sound (s : GigaPdfEditor) : Prop where
  paired : s.waiting .complete = s.waiting .error
  nodup : (s.waiting .complete ++ s.settledCalls).Nodup
  made : ∀ call ∈ s.waiting .complete ++ s.settledCalls, call < s.calls
  kept : s.destroyed = false → ∀ call < s.calls, call ∈ s.waiting .complete ++ s.settledCalls
  deaf : s.destroyed = true → ∀ event, s.listeners event = []

theorem construct_sound (allowedOrigin : String) (onComplete : Bool) :
    Sound (construct allowedOrigin onComplete) :=
  ⟨rfl, List.nodup_nil, fun _ mem => absurd mem List.not_mem_nil,
    fun _ _ lt => absurd lt (Nat.not_lt_zero _), fun _ _ => rfl⟩

/-- Nothing else of an editor matters. -/
theorem Sound.of_same {s t : GigaPdfEditor} (h : Sound s)
    (waiting : ∀ name, t.waiting name = s.waiting name) (settled : t.settled = s.settled)
    (calls : t.calls = s.calls) (destroyed : t.destroyed = s.destroyed)
    (deaf : s.destroyed = true → ∀ event, t.listeners event = []) : Sound t where
  paired := by rw [waiting, waiting, h.paired]
  nodup := by rw [waiting, GigaPdfEditor.settledCalls, settled]; exact h.nodup
  made := by rw [waiting, GigaPdfEditor.settledCalls, settled, calls]; exact h.made
  kept := by rw [waiting, GigaPdfEditor.settledCalls, settled, calls, destroyed]; exact h.kept
  deaf := destroyed ▸ deaf

theorem waiting_off_both (s : GigaPdfEditor) (call : Nat) {name : GigaPdfEventName}
    (awaited : name = .complete ∨ name = .error) :
    ((s.off .complete (.onComplete call)).off .error (.onError call)).waiting name =
      (s.waiting name).erase call := by
  obtain rfl | rfl := awaited
  · rw [GigaPdfEditor.waiting, GigaPdfEditor.off_listeners, if_neg (by decide),
      GigaPdfEditor.off_listeners, if_pos rfl]
    exact filterMap_erase call?_inj rfl _
  · rw [GigaPdfEditor.waiting, GigaPdfEditor.off_listeners, if_pos rfl,
      GigaPdfEditor.off_listeners, if_neg (by decide)]
    exact filterMap_erase call?_inj rfl _

theorem name_of_call? {listener : Listener} {event : GigaPdfEventName} {call : Nat}
    (h : listener.call? event = some call) : event = .complete ∨ event = .error := by
  cases event <;> cases listener <;> simp_all [Listener.call?]

/-- A call that waits is settled. -/
theorem Sound.settles {s t : GigaPdfEditor} (h : Sound s) {call : Nat}
    (waits : call ∈ s.waiting .complete)
    (complete : t.waiting .complete = (s.waiting .complete).erase call)
    (error : t.waiting .error = (s.waiting .error).erase call)
    (settled : t.settledCalls = s.settledCalls ++ [call]) (calls : t.calls = s.calls)
    (destroyed : t.destroyed = false) (before : s.destroyed = false) : Sound t := by
  have perm : (t.waiting .complete ++ t.settledCalls).Perm
      (s.waiting .complete ++ s.settledCalls) := by
    rw [complete, settled, ← List.append_assoc]
    exact (List.perm_append_singleton ..).trans
      ((List.perm_cons_erase waits).symm.append_right s.settledCalls)
  constructor
  · rw [complete, error, h.paired]
  · exact perm.nodup_iff.mpr h.nodup
  · rw [calls]
    exact fun call mem => h.made call (perm.subset mem)
  · rw [calls]
    exact fun _ call lt => perm.symm.subset (h.kept before call lt)
  · rw [destroyed]
    exact fun absurd => Bool.noConfusion absurd

theorem hear_sound {s : GigaPdfEditor} (h : Sound s) {listener : Listener} {event : Event}
    (mem : listener ∈ s.listeners event.name) : Sound (s.hear listener event) := by
  obtain ⟨-, same⟩ | ⟨call, outcome, awaited, same⟩ := hear_cases s listener event
  · rw [same]
    exact h.of_same (fun _ => rfl) rfl rfl rfl h.deaf
  · have waits : call ∈ s.waiting .complete := by
      have waits : call ∈ s.waiting event.name := List.mem_filterMap.mpr ⟨listener, mem, awaited⟩
      obtain name | name := name_of_call? awaited
      · rwa [name] at waits
      · rwa [name, ← h.paired] at waits
    have listening : s.destroyed = false := by
      by_contra destroyed
      rw [h.deaf (eq_true_of_ne_false destroyed)] at mem
      exact List.not_mem_nil mem
    rw [same]
    refine h.settles waits (waiting_off_both _ call (.inl rfl)) (waiting_off_both _ call (.inr rfl))
      ?_ rfl listening listening
    exact List.map_append

theorem each_sound {s : GigaPdfEditor} (h : Sound s) (event : Event) (i : Nat) :
    Sound (s.each event i) := by
  fun_induction GigaPdfEditor.each s event i with
  | case1 s i inside ih => exact ih (hear_sound h (List.getElem_mem inside))
  | case2 s i outside => exact h

theorem on_waiting (s : GigaPdfEditor) (event : GigaPdfEventName) (listener : Listener)
    (name : GigaPdfEventName) :
    (s.on event listener).waiting name =
      if s.destroyed = false ∧ name = event then
        s.waiting name ++ (listener.call? name).toList
      else s.waiting name := by
  rw [GigaPdfEditor.on]
  split
  · simp_all
  · rename_i listening
    by_cases same : name = event
    · subst same
      rw [if_pos ⟨by simpa using listening, rfl⟩, GigaPdfEditor.waiting]
      simp only [Function.update_self]
      cases name <;> cases listener <;> simp [GigaPdfEditor.waiting, Listener.call?]
    · rw [if_neg (same ·.2), GigaPdfEditor.waiting]
      simp only [Function.update_of_ne same]
      rfl

theorem off_callback_waiting (s : GigaPdfEditor) (event : GigaPdfEventName) (id : Nat)
    (name : GigaPdfEventName) : (s.off event (.callback id)).waiting name = s.waiting name := by
  have none : (Listener.callback id).call? name = none := by cases name <;> rfl
  rw [GigaPdfEditor.waiting, GigaPdfEditor.off_listeners]
  split
  · rw [GigaPdfEditor.waiting]
    induction s.listeners name with
    | nil => rfl
    | cons a items ih =>
      by_cases same : a = .callback id
      · simp [same, none]
      · rw [List.erase_cons_tail (by simpa using same), List.filterMap_cons,
          List.filterMap_cons, ih]
  · rfl

/-- While the editor is there, a call waits in both lists. -/
theorem getFile_cases (s : GigaPdfEditor) (here : s.destroyed = false) :
    (∀ name, s.getFile.waiting name =
      if name = .complete ∨ name = .error then s.waiting name ++ [s.calls] else s.waiting name) ∧
    s.getFile.settled = s.settled ∧ s.getFile.calls = s.calls + 1 ∧
    s.getFile.destroyed = false := by
  have both : s.getFile = ((({ s with calls := s.calls + 1 } : GigaPdfEditor).on .complete
      (.onComplete s.calls)).on .error (.onError s.calls)).postCommand .getFile := by
    rw [GigaPdfEditor.getFile, if_neg (by simpa using here)]
  obtain ⟨posted, same⟩ := postCommand_cases (((({ s with calls := s.calls + 1 } :
    GigaPdfEditor).on .complete (.onComplete s.calls)).on .error (.onError s.calls))) .getFile
  rw [both, same]
  refine ⟨fun name => ?_, ?_⟩
  · refine (on_waiting ..).trans ?_
    rw [on_waiting]
    cases name <;> simp [GigaPdfEditor.on, here, Listener.call?] <;> rfl
  · simp [GigaPdfEditor.on, here]

/-- A promise of an editor that is destroyed is rejected at once. -/
theorem getFile_sound_of_destroyed {s : GigaPdfEditor} (h : Sound s) (gone : s.destroyed = true) :
    Sound s.getFile := by
  have same : s.getFile = ({ s with calls := s.calls + 1 } : GigaPdfEditor).settle s.calls
      (.rejected "[GigaPdf] Editor is destroyed") := if_pos gone
  have none : s.waiting .complete = [] := by rw [GigaPdfEditor.waiting, h.deaf gone]; rfl
  have settled : s.getFile.settledCalls = s.settledCalls ++ [s.calls] := by
    rw [same]
    exact List.map_append
  have waiting : s.getFile.waiting .complete = [] := by rw [same]; exact none
  have old := h.nodup
  have made := h.made
  rw [none, List.nil_append] at old made
  refine ⟨?_, ?_, ?_, fun here => ?_, fun _ => ?_⟩
  · rw [same]
    exact h.paired
  · rw [waiting, settled, List.nil_append, List.nodup_append]
    refine ⟨old, List.nodup_singleton _, fun call mem last eq => ?_⟩
    have lt := made call mem
    rw [List.mem_singleton] at eq
    omega
  · rw [waiting, settled, List.nil_append]
    intro call mem
    have calls : s.getFile.calls = s.calls + 1 := by rw [same]; rfl
    rw [calls]
    rcases List.mem_append.mp mem with mem | mem
    · exact Nat.lt_succ_of_lt (made call mem)
    · exact List.mem_singleton.mp mem ▸ Nat.lt_succ_self _
  · rw [same] at here
    exact absurd (here.symm.trans gone) Bool.false_ne_true
  · rw [same]
    exact h.deaf gone

theorem getFile_sound_of_mounted {s : GigaPdfEditor} (h : Sound s) (there : s.destroyed = false) :
    Sound s.getFile := by
  obtain ⟨waiting, settled, calls, here⟩ := getFile_cases s there
  have settled : s.getFile.settledCalls = s.settledCalls := by
    rw [GigaPdfEditor.settledCalls, settled, GigaPdfEditor.settledCalls]
  have perm : (s.getFile.waiting .complete ++ s.getFile.settledCalls).Perm
      (s.calls :: (s.waiting .complete ++ s.settledCalls)) := by
    rw [waiting, if_pos (.inl rfl), settled, List.append_assoc]
    exact List.perm_middle
  refine ⟨?_, ?_, fun call mem => ?_, fun _ call lt => ?_, fun gone => ?_⟩
  · rw [waiting, waiting, if_pos (.inl rfl), if_pos (.inr rfl), h.paired]
  · rw [perm.nodup_iff, List.nodup_cons]
    exact ⟨fun mem => Nat.lt_irrefl _ (h.made _ mem), h.nodup⟩
  · rw [calls]
    rcases List.mem_cons.mp (perm.subset mem) with rfl | mem
    · exact Nat.lt_succ_self _
    · exact Nat.lt_succ_of_lt (h.made call mem)
  · rw [calls] at lt
    refine perm.symm.subset ?_
    rcases Nat.lt_succ_iff_lt_or_eq.mp lt with lt | rfl
    · exact List.mem_cons_of_mem _ (h.kept there call lt)
    · exact List.mem_cons_self
  · exact absurd (here.symm.trans gone) Bool.false_ne_true

theorem getFile_sound {s : GigaPdfEditor} (h : Sound s) : Sound s.getFile := by
  cases gone : s.destroyed with
  | true => exact getFile_sound_of_destroyed h gone
  | false => exact getFile_sound_of_mounted h gone

theorem step_sound {s : GigaPdfEditor} (h : Sound s) (action : Action) : Sound (step s action) := by
  cases action with
  | on event id =>
    have none : ∀ name, (Listener.callback id).call? name = none := fun name => by
      cases name <;> rfl
    refine h.of_same (fun name => ?_) ?_ ?_ ?_ ?_
    · exact (on_waiting ..).trans (by simp [none])
    all_goals simp only [step, GigaPdfEditor.on]
    · split <;> rfl
    · split <;> rfl
    · split <;> rfl
    · intro gone
      rw [if_pos gone]
      exact h.deaf gone
  | off event id =>
    refine h.of_same (off_callback_waiting s event id) rfl rfl rfl fun gone name => ?_
    rw [step, GigaPdfEditor.off_listeners, h.deaf gone]
    split <;> rfl
  | exportPdf | savePdf | loadDocument =>
    obtain ⟨posted, same⟩ := postCommand_cases s _
    rw [step, same]
    exact h.of_same (fun _ => rfl) rfl rfl rfl h.deaf
  | getFile => exact getFile_sound h
  | mounted =>
    rw [step, GigaPdfEditor.mount]
    split
    · exact h
    · exact h.of_same (fun _ => rfl) rfl rfl rfl h.deaf
  | sessionFailed message => exact each_sound h _ 0
  | posted message =>
    rw [step]
    obtain ⟨-, same⟩ | ⟨event, handed, here, -, same⟩ := handleMessage_cases s message <;> rw [same]
    · exact h
    · have after := each_sound h event 0
      exact after.of_same (fun _ => rfl) rfl rfl rfl after.deaf
  | destroy =>
    rw [step, GigaPdfEditor.destroy]
    split
    · exact h
    · refine ⟨rfl, (List.nodup_append.mp h.nodup).2.1, fun call mem => ?_, ?_, fun _ _ => rfl⟩
      · exact h.made call (List.mem_append_right _ mem)
      · exact fun absurd => Bool.noConfusion absurd

theorem run_sound {s : GigaPdfEditor} (h : Sound s) (actions : List Action) :
    Sound (run s actions) := by
  induction actions generalizing s with
  | nil => exact h
  | cons action actions ih => exact ih (step_sound h action)

theorem nodup_filter_of_filterMap {α β : Type*} {f : α → Option β} {items : List α}
    (nodup : (items.filterMap f).Nodup) : (items.filter (fun a => (f a).isSome)).Nodup := by
  induction items with
  | nil => exact List.nodup_nil
  | cons a items ih =>
    cases ha : f a with
    | none =>
      rw [List.filterMap_cons_none ha] at nodup
      simpa [ha] using ih nodup
    | some b =>
      rw [List.filterMap_cons_some ha, List.nodup_cons] at nodup
      rw [List.filter_cons_of_pos (by simp [ha]), List.nodup_cons]
      refine ⟨fun mem => nodup.1 (List.mem_filterMap.mpr ⟨a, ?_, ha⟩), ih nodup.2⟩
      exact (List.mem_filter.mp mem).1

theorem Sound.once_nodup {s : GigaPdfEditor} (h : Sound s) (event : GigaPdfEventName) :
    ((s.listeners event).filter (Listener.once event)).Nodup := by
  refine nodup_filter_of_filterMap (f := Listener.call? event) ?_
  have awaited : (s.waiting .complete).Nodup := (List.nodup_append.mp h.nodup).1
  cases event with
  | complete => exact awaited
  | error => exact (h.paired ▸ awaited : (s.waiting .error).Nodup)
  | _ =>
    rw [List.filterMap_eq_nil_iff.mpr fun listener _ => by cases listener <;> rfl]
    exact List.nodup_nil

/-- The loop over the listeners of an event, as a recursion. -/
theorem each_eq {s : GigaPdfEditor} (h : Sound s) (event : Event) :
    (s.each event 0).listeners event.name =
        LiveIteration.left (Listener.once event.name) (s.listeners event.name) ∧
      (s.each event 0).heard = s.heard ++
        (LiveIteration.calls (Listener.once event.name) (s.listeners event.name)).map
          (·, event) := by
  obtain ⟨more, heard, looped⟩ := each_loop s event 0 []
  have eq := (LiveIteration.deliver_eq _ (h.once_nodup event.name)).symm.trans looped
  rw [Prod.mk.injEq, List.nil_append] at eq
  exact ⟨eq.1.symm, eq.2 ▸ heard⟩

/-- The messages that answer a call of `getFile`. -/
def answers (allowedOrigin : String) : Action → Bool
  | .posted message =>
    match heeds allowedOrigin message with
    | some (.complete _) => true
    | some (.error _ _) => true
    | _ => false
  | _ => false

theorem hear_waiting_le (s : GigaPdfEditor) (listener : Listener) (event : Event) :
    ((s.hear listener event).waiting .complete).length ≤ (s.waiting .complete).length := by
  obtain ⟨-, same⟩ | ⟨call, outcome, -, same⟩ := hear_cases s listener event
  · rw [same]
    exact Nat.le_refl _
  · rw [same]
    exact Nat.le_trans (Nat.le_of_eq (congrArg List.length (waiting_off_both _ call (.inl rfl))))
      List.length_erase_le

theorem each_waiting_le (s : GigaPdfEditor) (event : Event) (i : Nat) :
    ((s.each event i).waiting .complete).length ≤ (s.waiting .complete).length := by
  fun_induction GigaPdfEditor.each s event i with
  | case1 s i inside ih => exact Nat.le_trans ih (hear_waiting_le ..)
  | case2 s i outside => exact Nat.le_refl _

theorem each_halves {s : GigaPdfEditor} (h : Sound s) (event : Event)
    (answer : event.name = .complete ∨ event.name = .error) :
    2 * ((s.each event 0).waiting .complete).length ≤ (s.waiting .complete).length := by
  have half := LiveIteration.two_mul_countP_left (Listener.once event.name)
    (s.listeners event.name)
  have after := each_sound h event 0
  rw [← (each_eq h event).1] at half
  have count : ∀ t : GigaPdfEditor, Sound t →
      (t.listeners event.name).countP (Listener.once event.name) =
        (t.waiting .complete).length := by
    intro t ht
    have same : t.waiting .complete = t.waiting event.name := by
      obtain name | name := answer
      · rw [name]
      · rw [name, ht.paired]
    rw [same, GigaPdfEditor.waiting, List.length_filterMap_eq_countP]
    rfl
  rwa [count _ after, count _ h] at half

/-- Every answer settles at least half of the calls that wait. -/
theorem step_halves {s : GigaPdfEditor} (h : Sound s) {action : Action}
    (other : action ≠ .getFile) :
    ((step s action).waiting .complete).length *
        2 ^ (if answers s.allowedOrigin action then 1 else 0) ≤
      (s.waiting .complete).length := by
  cases action with
  | getFile => exact absurd rfl other
  | on event id =>
    simp [step, on_waiting, answers, Listener.call?]
  | off event id => simp [step, off_callback_waiting, answers]
  | exportPdf | savePdf | loadDocument =>
    obtain ⟨posted, same⟩ := postCommand_cases s _
    rw [step, same]
    simp [answers, GigaPdfEditor.waiting]
  | mounted =>
    rw [step, GigaPdfEditor.mount]
    split <;> simp [answers, GigaPdfEditor.waiting]
  | sessionFailed message =>
    simpa [step, GigaPdfEditor.sessionFailed, answers] using each_waiting_le s _ 0
  | posted message =>
    rw [step]
    obtain ⟨gone | dropped, same⟩ | ⟨event, handed, -, heeded, same⟩ :=
      handleMessage_cases s message
    · rw [same, GigaPdfEditor.waiting, h.deaf gone]
      simp
    · rw [same]
      simp [answers, dropped]
    · rw [same]
      simp only [answers, heeded]
      cases event with
      | complete blob =>
        have half := each_halves h (.complete blob) (.inl rfl)
        simpa [GigaPdfEditor.waiting, Nat.mul_comm] using half
      | error code text =>
        have half := each_halves h (.error code text) (.inr rfl)
        simpa [GigaPdfEditor.waiting, Nat.mul_comm] using half
      | _ =>
        have fewer := each_waiting_le s
        simp only [GigaPdfEditor.waiting] at fewer
        simpa [GigaPdfEditor.waiting] using fewer _ 0
  | destroy =>
    rw [step, GigaPdfEditor.destroy]
    split <;> simp [answers, GigaPdfEditor.waiting]

theorem run_halves {s : GigaPdfEditor} (h : Sound s) {actions : List Action}
    (none : .getFile ∉ actions) :
    ((run s actions).waiting .complete).length * 2 ^ actions.countP (answers s.allowedOrigin) ≤
      (s.waiting .complete).length := by
  induction actions generalizing s with
  | nil => simp [run]
  | cons action actions ih =>
    obtain ⟨other, none⟩ := not_or.mp (List.mem_cons.not.mp none)
    have rest := ih (step_sound h action) none
    have first := step_halves h (Ne.symm other)
    rw [(step_frame s action).1] at rest
    rw [List.countP_cons, Nat.pow_add, ← Nat.mul_assoc]
    exact Nat.le_trans (Nat.mul_le_mul_right _ rest) first

theorem getFile_waiting_le (s : GigaPdfEditor) :
    (s.getFile.waiting .complete).length ≤ (s.waiting .complete).length + 1 := by
  by_cases gone : s.destroyed = true
  · have same : s.getFile = ({ s with calls := s.calls + 1 } : GigaPdfEditor).settle s.calls
        (.rejected "[GigaPdf] Editor is destroyed") := if_pos gone
    rw [same]
    exact Nat.le_succ _
  · rw [(getFile_cases s (eq_false_of_ne_true gone)).1, if_pos (.inl rfl)]
    simp

/-- No more calls wait than have no answer yet. -/
theorem waiting_le {s : GigaPdfEditor} (h : Sound s) (none : s.waiting .complete = [])
    {actions : List Action}
    (asked : ∀ sent, sent <+: actions →
      sent.countP (answers s.allowedOrigin) ≤ sent.count .getFile) :
    ((run s actions).waiting .complete).length + actions.countP (answers s.allowedOrigin) ≤
      actions.count .getFile := by
  induction actions using List.reverseRecOn with
  | nil => simp [run, none]
  | append_singleton actions action ih =>
    have before := ih fun sent pre => asked sent (pre.trans (List.prefix_append ..))
    have now := asked _ (List.prefix_refl _)
    have last : run s (actions ++ [action]) = step (run s actions) action := run_append ..
    rw [List.countP_append, List.count_append, List.countP_singleton, List.count_singleton] at now
    rw [last, List.countP_append, List.count_append, List.countP_singleton, List.count_singleton]
    by_cases same : action = .getFile
    · subst same
      have more := getFile_waiting_le (run s actions)
      simp only [step, answers, beq_self_eq_true, if_true, Bool.false_eq_true, if_false] at *
      omega
    · have half := step_halves (run_sound h actions) same
      rw [(run_frame s actions).1] at half
      rw [if_neg (by simpa using same : ¬(action == .getFile) = true)] at now ⊢
      split at half <;> simp_all <;> omega

/-- Once it is destroyed the editor settles only the calls that are made then. -/
theorem step_deaf {s : GigaPdfEditor} (h : Sound s) (gone : s.destroyed = true) (action : Action)
    {call : Nat} (made : call < s.calls) :
    call ∈ (step s action).settledCalls ↔ call ∈ s.settledCalls := by
  have silent : ∀ event, s.each event 0 = s := by
    intro event
    rw [GigaPdfEditor.each, dif_neg (by rw [h.deaf gone]; exact Nat.not_lt_zero _)]
  cases action with
  | on event id => rw [step, GigaPdfEditor.on, if_pos gone]
  | off event id => rfl
  | exportPdf | savePdf | loadDocument =>
    obtain ⟨posted, same⟩ := postCommand_cases s _
    rw [step, same]
    rfl
  | getFile =>
    have settled : s.getFile.settledCalls = s.settledCalls ++ [s.calls] := by
      rw [GigaPdfEditor.getFile, if_pos gone]
      exact List.map_append
    rw [step, settled, List.mem_append, List.mem_singleton]
    exact or_iff_left (Nat.ne_of_lt made)
  | mounted => rw [step, GigaPdfEditor.mount, if_pos gone]
  | sessionFailed message => rw [step, GigaPdfEditor.sessionFailed, silent]
  | posted message => rw [step, GigaPdfEditor.handleMessage, if_pos gone]
  | destroy => rw [step, GigaPdfEditor.destroy, if_pos gone]

theorem run_deaf {s : GigaPdfEditor} (h : Sound s) (gone : s.destroyed = true)
    (actions : List Action) {call : Nat} (made : call < s.calls) :
    call ∈ (run s actions).settledCalls ↔ call ∈ s.settledCalls := by
  induction actions generalizing s with
  | nil => rfl
  | cons action actions ih =>
    have still : (step s action).destroyed = true := by rw [(step_frame s action).2.1, gone]; rfl
    have made' : call < (step s action).calls := by
      rw [(step_frame s action).2.2]
      exact Nat.lt_add_right _ made
    exact (ih (step_sound h action) still made').trans (step_deaf h gone action made)

end GigaPdf.EmbedSdk
