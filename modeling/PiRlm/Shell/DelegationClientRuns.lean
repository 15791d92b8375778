/-
  PiRlm.Shell.DelegationClientRuns

  What holds of every run of one delegation call.

  A call subscribes, listens, waits for its terminal, and from its settlement on only
  carries out what was decided then.
-/
import PiRlm.Shell.DelegationClient

namespace PiRlm.Shell

open PiRlm.Lib

namespace DelegationV2Client

-- ============================================================================
-- Phases
-- ============================================================================

/-- The channels that are subscribed to before a channel. -/
def Channel.before : Channel → List Channel
  | .response => []
  | .started => [.response]
  | .update => [.response, .started]

/-- A call outside after which nothing is left to do. -/
def Frame.Waiting {N : Type} : Frame N → Prop
  | .requesting | .updating => True
  | _ => False

section

variable {N : Type}

/-- The counters and what they count. -/
structure State.Sound (s : State N) : Prop where
  count : s.updateCount = s.updates.length
  count_le : s.updates.length ≤ DelegationV2Limits.maxUpdates
  emitted : s.emitted = (if s.requestEmitted then [.request] else []) ++
    (if s.cancelEmitted then [.cancel] else [])
  requested : s.cancelEmitted = true → s.requestEmitted = true
  nodup : s.subscriptions.Nodup

structure State.Open (s : State N) : Prop where
  settled : s.settled = false
  cancelEmitted : s.cancelEmitted = false
  outcomes : s.outcomes = []
  unremoved : s.unremoved = []
  unsubscribe : s.unsubscribe = s.subscriptions

structure State.Quiet (s : State N) : Prop where
  startTimer : s.startTimer = false
  deadlineTimer : s.deadlineTimer = false
  listener : s.listener = false

/-- How far what was decided is carried out. -/
inductive Stage (outcome : DelegationV2Outcome N) (cancelRemote : Bool) (s : State N) : Prop
  | removing (channel : Channel) (rest : List Channel) (frames : List (Frame N))
    (hframes : s.frames = .removing channel rest outcome cancelRemote :: frames)
    (hwaiting : ∀ frame ∈ frames, frame.Waiting) (hcancel : s.cancelEmitted = false)
    (houtcomes : s.outcomes = [])
    (hleft : ∀ c ∈ s.subscriptions, c = channel ∨ c ∈ rest ∨ c ∈ s.unremoved)
  | cancelling (frames : List (Frame N)) (hframes : s.frames = .cancelling outcome :: frames)
    (hwaiting : ∀ frame ∈ frames, frame.Waiting) (hremote : cancelRemote = true)
    (houtcomes : s.outcomes = []) (hleft : ∀ c ∈ s.subscriptions, c ∈ s.unremoved)
  | resolved (hwaiting : ∀ frame ∈ s.frames, frame.Waiting)
    (hremote : s.cancelEmitted = true → cancelRemote = true) (houtcomes : s.outcomes = [outcome])
    (hleft : ∀ c ∈ s.subscriptions, c ∈ s.unremoved)

/-- The call is settled, with an outcome and a decision about a cancel. -/
structure Decided (outcome : DelegationV2Outcome N) (cancelRemote : Bool) (s : State N) :
    Prop where
  sound : s.Sound
  quiet : s.Quiet
  settled : s.settled = true
  stage : Stage outcome cancelRemote s

inductive Phase (call : Call) (s : State N) : Prop
  | subscribing (channel : Channel) (hframes : s.frames = [.subscribing channel])
    (hsound : s.Sound) (hopen : s.Open) (hquiet : s.Quiet) (hrequest : s.requestEmitted = false)
    (hbefore : s.subscriptions = channel.before)
  | listening (hframes : s.frames = [.listening]) (hsignal : call.signal = true)
    (hsound : s.Sound) (hopen : s.Open) (hquiet : s.Quiet) (hrequest : s.requestEmitted = false)
  | requested (hframes : ∀ frame ∈ s.frames, frame.Waiting) (hsound : s.Sound) (hopen : s.Open)
    (hrequest : s.requestEmitted = true) (hdeadline : s.deadlineTimer = true)
    (hlistener : s.listener = call.signal) (haborted : call.signal = true → s.aborted = false)
  | decided (outcome : DelegationV2Outcome N) (cancelRemote : Bool)
    (h : Decided outcome cancelRemote s)

-- ============================================================================
-- Settlement
-- ============================================================================

variable {s : State N} {outcome : DelegationV2Outcome N} {cancelRemote : Bool}

theorem Decided.resolve (hsound : s.Sound) (hquiet : s.Quiet) (hsettled : s.settled = true)
    (hframes : ∀ frame ∈ s.frames, frame.Waiting)
    (hremote : s.cancelEmitted = true → cancelRemote = true) (houtcomes : s.outcomes = [])
    (hleft : ∀ c ∈ s.subscriptions, c ∈ s.unremoved) :
    Decided outcome cancelRemote (s.resolve outcome) := by
  obtain ⟨hcount, hle, hemitted, hrequested, hnodup⟩ := hsound
  obtain ⟨hstart, hdeadline, hlistener⟩ := hquiet
  refine ⟨⟨hcount, hle, hemitted, hrequested, hnodup⟩, ⟨hstart, hdeadline, hlistener⟩, hsettled,
    .resolved hframes hremote ?_ hleft⟩
  rw [State.resolve, houtcomes]
  rfl

theorem Decided.removeNext (hsound : s.Sound) (hquiet : s.Quiet) (hsettled : s.settled = true)
    (hframes : ∀ frame ∈ s.frames, frame.Waiting) (hcancel : s.cancelEmitted = false)
    (houtcomes : s.outcomes = []) (rest : List Channel)
    (hleft : ∀ c ∈ s.subscriptions, c ∈ rest ∨ c ∈ s.unremoved) :
    Decided outcome cancelRemote (s.removeNext outcome cancelRemote rest) := by
  cases rest with
  | nil =>
    have hunremoved : ∀ c ∈ s.subscriptions, c ∈ s.unremoved := fun c hc =>
      (hleft c hc).resolve_left List.not_mem_nil
    rw [State.removeNext, State.afterCleanup]
    split
    · rename_i hemits
      obtain ⟨hcount, hle, hemitted, -, hnodup⟩ := hsound
      obtain ⟨hstart, hdeadline, hlistener⟩ := hquiet
      refine ⟨⟨hcount, hle, ?_, fun _ => hemits.2.1, hnodup⟩, ⟨hstart, hdeadline, hlistener⟩,
        hsettled, .cancelling s.frames rfl hframes hemits.1 houtcomes hunremoved⟩
      rw [hemitted, hcancel, if_neg Bool.false_ne_true, List.append_nil]
      rfl
    · exact .resolve hsound hquiet hsettled hframes
        (fun htrue => absurd (hcancel.symm.trans htrue) nofun) houtcomes hunremoved
  | cons channel rest =>
    obtain ⟨hcount, hle, hemitted, hrequested, hnodup⟩ := hsound
    obtain ⟨hstart, hdeadline, hlistener⟩ := hquiet
    refine ⟨⟨hcount, hle, hemitted, hrequested, hnodup⟩, ⟨hstart, hdeadline, hlistener⟩, hsettled,
      .removing channel rest s.frames rfl hframes hcancel houtcomes fun c hc => ?_⟩
    rcases hleft c hc with hmem | hun
    · rcases List.mem_cons.mp hmem with heq | hrest
      · exact .inl heq
      · exact .inr (.inl hrest)
    · exact .inr (.inr hun)

theorem Decided.settle (hsound : s.Sound) (hopen : s.Open)
    (hframes : ∀ frame ∈ s.frames, frame.Waiting) :
    Decided outcome cancelRemote (s.settle outcome cancelRemote) := by
  obtain ⟨hcount, hle, hemitted, hrequested, hnodup⟩ := hsound
  rw [State.settle, hopen.settled, if_neg Bool.false_ne_true]
  apply Decided.removeNext
  · exact ⟨hcount, hle, hemitted, hrequested, hnodup⟩
  · exact ⟨rfl, rfl, rfl⟩
  · rfl
  · exact hframes
  · exact hopen.cancelEmitted
  · exact hopen.outcomes
  · intro c hc
    rw [List.mem_reverse, hopen.unsubscribe]
    exact .inl hc

theorem settle_of_settled (hsettled : s.settled = true) : s.settle outcome cancelRemote = s :=
  if_pos hsettled

/-- What carrying out a settlement leaves as it is. -/
theorem removeNext_same (rest : List Channel) :
    (s.removeNext outcome cancelRemote rest).settled = s.settled ∧
      (s.removeNext outcome cancelRemote rest).aborted = s.aborted ∧
      (s.removeNext outcome cancelRemote rest).updates = s.updates := by
  cases rest with
  | nil =>
    rw [State.removeNext, State.afterCleanup]
    split <;> exact ⟨rfl, rfl, rfl⟩
  | cons => exact ⟨rfl, rfl, rfl⟩

theorem settle_settled : (s.settle outcome cancelRemote).settled = true := by
  rw [State.settle]
  split
  · assumption
  · exact (removeNext_same _).1

theorem settle_aborted : (s.settle outcome cancelRemote).aborted = s.aborted := by
  rw [State.settle]
  split
  · rfl
  · exact (removeNext_same _).2.1

end

-- ============================================================================
-- After the settlement
-- ============================================================================

section

variable {N : Type} [JsonNumber N] {call : Call} {s s' : State N}
  {outcome : DelegationV2Outcome N} {cancelRemote : Bool}

/-- No handler does anything then. -/
theorem handle_of_settled (hsettled : s.settled = true) (hquiet : s.Quiet) (channel : Channel)
    (w : JsWorld N) (data : JsValue N) : call.handle s channel w data = s := by
  cases channel with
  | response =>
    rw [Call.handle, Call.onResponse, hsettled, Bool.or_true]
    rfl
  | started =>
    rw [Call.handle, Call.onStarted]
    split
    · rfl
    · rw [← hquiet.startTimer]
  | update =>
    rw [Call.handle, Call.onUpdateEvent, hsettled, Bool.or_true, Bool.true_or, Bool.true_or]
    rfl

omit [JsonNumber N] in
/-- A call outside that returns or throws. -/
theorem Decided.pop (h : Decided outcome cancelRemote s) {frame : Frame N}
    {frames : List (Frame N)} (hpop : s.frames = frame :: frames) :
    (Decided outcome cancelRemote (call.returned { s with frames := frames } frame) ∧
      (call.returned { s with frames := frames } frame).updates = s.updates) ∧
    (Decided outcome cancelRemote (call.thrown { s with frames := frames } frame) ∧
      (call.thrown { s with frames := frames } frame).updates = s.updates) := by
  obtain ⟨⟨hcount, hle, hemitted, hrequested, hnodup⟩, ⟨hstart, hdeadline, hlistener⟩, hsettled,
    hstage⟩ := h
  cases hstage with
  | removing channel rest frames' hframes hwaiting hcancel houtcomes hleft =>
    obtain ⟨rfl, rfl⟩ := List.cons.inj (hpop.symm.trans hframes)
    constructor
    · refine ⟨?_, (removeNext_same rest).2.2⟩
      apply Decided.removeNext
      · exact ⟨hcount, hle, hemitted, hrequested, hnodup.erase channel⟩
      · exact ⟨hstart, hdeadline, hlistener⟩
      · exact hsettled
      · exact hwaiting
      · exact hcancel
      · exact houtcomes
      · intro c hc
        obtain ⟨hne, hmem⟩ := hnodup.mem_erase_iff.mp hc
        exact (hleft c hmem).resolve_left hne
    · refine ⟨?_, (removeNext_same rest).2.2⟩
      apply Decided.removeNext
      · exact ⟨hcount, hle, hemitted, hrequested, hnodup⟩
      · exact ⟨hstart, hdeadline, hlistener⟩
      · exact hsettled
      · exact hwaiting
      · exact hcancel
      · exact houtcomes
      · intro c hc
        dsimp only
        rw [List.mem_append, List.mem_singleton]
        rcases hleft c hc with heq | hrest | hun
        · exact .inr (.inr heq)
        · exact .inl hrest
        · exact .inr (.inl hun)
  | cancelling frames' hframes hwaiting hremote houtcomes hleft =>
    obtain ⟨rfl, rfl⟩ := List.cons.inj (hpop.symm.trans hframes)
    have hresolve : Decided outcome cancelRemote
        (State.resolve { s with frames := frames } outcome) := by
      apply Decided.resolve
      · exact ⟨hcount, hle, hemitted, hrequested, hnodup⟩
      · exact ⟨hstart, hdeadline, hlistener⟩
      · exact hsettled
      · exact hwaiting
      · exact fun _ => hremote
      · exact houtcomes
      · exact hleft
    exact ⟨⟨hresolve, rfl⟩, hresolve, rfl⟩
  | resolved hwaiting hremote houtcomes hleft =>
    rw [hpop, List.forall_mem_cons] at hwaiting
    have hrest : Decided outcome cancelRemote { s with frames := frames } :=
      ⟨⟨hcount, hle, hemitted, hrequested, hnodup⟩, ⟨hstart, hdeadline, hlistener⟩, hsettled,
        .resolved hwaiting.2 hremote houtcomes hleft⟩
    cases frame with
    | requesting =>
      refine ⟨⟨hrest, rfl⟩, ?_⟩
      rw [Call.thrown, settle_of_settled hrest.settled]
      exact ⟨hrest, rfl⟩
    | updating => exact ⟨⟨hrest, rfl⟩, hrest, rfl⟩
    | subscribing | listening | removing | discarding | cancelling =>
      exact absurd hwaiting.1 id

/-- What is decided stays so, and no update is given to the callback. -/
theorem Decided.step (h : Decided outcome cancelRemote s) {e : Event N}
    (hstep : call.step s e = some s') :
    Decided outcome cancelRemote s' ∧ s'.updates = s.updates := by
  cases e with
  | returns =>
    rw [Call.step] at hstep
    split at hstep
    · exact absurd hstep nofun
    · rename_i hpop
      obtain rfl := Option.some.inj hstep
      exact (h.pop hpop).1
  | returnsOther =>
    rw [Call.step] at hstep
    split at hstep
    · rename_i hpop
      obtain rfl := Option.some.inj hstep
      exact (h.pop hpop).2
    · exact absurd hstep nofun
  | throws =>
    rw [Call.step] at hstep
    split at hstep
    · exact absurd hstep nofun
    · rename_i hpop
      obtain rfl := Option.some.inj hstep
      exact (h.pop hpop).2
  | deliver channel w data =>
    rw [Call.step] at hstep
    split at hstep
    · rw [handle_of_settled h.settled h.quiet] at hstep
      obtain rfl := Option.some.inj hstep
      exact ⟨h, rfl⟩
    · exact absurd hstep nofun
  | startTimer =>
    rw [Call.step, h.quiet.startTimer] at hstep
    exact absurd hstep nofun
  | deadlineTimer =>
    rw [Call.step, h.quiet.deadlineTimer] at hstep
    exact absurd hstep nofun
  | abort =>
    rw [Call.step] at hstep
    split at hstep
    · dsimp only at hstep
      rw [h.quiet.listener, if_neg Bool.false_ne_true] at hstep
      obtain rfl := Option.some.inj hstep
      obtain ⟨⟨hcount, hle, hemitted, hrequested, hnodup⟩, ⟨hstart, hdeadline, hlistener⟩,
        hsettled, hstage⟩ := h
      refine ⟨⟨⟨hcount, hle, hemitted, hrequested, hnodup⟩, ⟨hstart, hdeadline, rfl⟩, hsettled, ?_⟩,
        rfl⟩
      cases hstage with
      | removing channel rest frames hframes hwaiting hcancel houtcomes hleft =>
        exact .removing channel rest frames hframes hwaiting hcancel houtcomes hleft
      | cancelling frames hframes hwaiting hremote houtcomes hleft =>
        exact .cancelling frames hframes hwaiting hremote houtcomes hleft
      | resolved hwaiting hremote houtcomes hleft =>
        exact .resolved hwaiting hremote houtcomes hleft
    · exact absurd hstep nofun

-- ============================================================================
-- Before the settlement
-- ============================================================================

/-- No handler does anything before the request. -/
theorem handle_of_not_requested (h : s.requestEmitted = false) (channel : Channel)
    (w : JsWorld N) (data : JsValue N) : call.handle s channel w data = s := by
  cases channel with
  | response =>
    rw [Call.handle, Call.onResponse, h]
    rfl
  | started =>
    rw [Call.handle, Call.onStarted, h]
    rfl
  | update =>
    rw [Call.handle, Call.onUpdateEvent, h]
    rfl

omit [JsonNumber N] in
theorem Phase.settle (hsound : s.Sound) (hopen : s.Open)
    (hframes : ∀ frame ∈ s.frames, frame.Waiting) :
    Phase call (s.settle outcome cancelRemote) :=
  .decided outcome cancelRemote (.settle hsound hopen hframes)

omit [JsonNumber N] in
theorem Phase.afterListening (hframes : s.frames = []) (hsound : s.Sound) (hopen : s.Open)
    (hrequest : s.requestEmitted = false) (hlistener : s.listener = call.signal) :
    Phase call (call.afterListening s) := by
  have hwaiting : ∀ frame ∈ s.frames, frame.Waiting := by
    rw [hframes]
    exact nofun
  rw [Call.afterListening]
  split
  · exact .settle hsound hopen hwaiting
  · rename_i haborted
    obtain ⟨hcount, hle, hemitted, hrequested, hnodup⟩ := hsound
    obtain ⟨hsettled, hcancel, houtcomes, hunremoved, hunsubscribe⟩ := hopen
    refine .requested ?_ ⟨hcount, hle, ?_, fun _ => rfl, hnodup⟩
      ⟨hsettled, hcancel, houtcomes, hunremoved, hunsubscribe⟩ rfl rfl hlistener ?_
    · rw [State.emitRequest, hframes]
      exact fun frame hframe => List.mem_singleton.mp hframe ▸ trivial
    · simp [State.emitRequest, hemitted, hrequest, hcancel]
    · intro hsignal
      rw [hsignal, Bool.true_and, Bool.not_eq_true] at haborted
      exact haborted

omit [JsonNumber N] in
/-- A subscription is obtained. -/
theorem Phase.subscribed {channel : Channel} (hframes : s.frames = []) (hsound : s.Sound)
    (hopen : s.Open) (hquiet : s.Quiet) (hrequest : s.requestEmitted = false)
    (hbefore : s.subscriptions = channel.before) : Phase call (call.subscribed s channel) := by
  obtain ⟨hcount, hle, hemitted, hrequested, hnodup⟩ := hsound
  obtain ⟨hsettled, hcancel, houtcomes, hunremoved, hunsubscribe⟩ := hopen
  have hobtained : State.Sound { s with
      subscriptions := s.subscriptions ++ [channel]
      unsubscribe := s.unsubscribe ++ [channel] } := by
    refine ⟨hcount, hle, hemitted, hrequested, ?_⟩
    dsimp only
    rw [hbefore]
    cases channel <;> decide
  have hopened : State.Open { s with
      subscriptions := s.subscriptions ++ [channel]
      unsubscribe := s.unsubscribe ++ [channel] } :=
    ⟨hsettled, hcancel, houtcomes, hunremoved, congrArg (· ++ [channel]) hunsubscribe⟩
  have hnext : call.subscribed s channel = call.afterSubscribe { s with
      subscriptions := s.subscriptions ++ [channel]
      unsubscribe := s.unsubscribe ++ [channel] } channel :=
    if_neg (by rw [hsettled]; exact nofun)
  rw [hnext]
  obtain ⟨hcount, hle, hemitted, hrequested, hnodup⟩ := hobtained
  obtain ⟨hsettled, hcancel, houtcomes, hunremoved, hunsubscribe⟩ := hopened
  obtain ⟨hstart, hdeadline, hlistener⟩ := hquiet
  cases channel with
  | response | started =>
    refine .subscribing _ (congrArg (_ :: ·) hframes) ⟨hcount, hle, hemitted, hrequested, hnodup⟩
      ⟨hsettled, hcancel, houtcomes, hunremoved, hunsubscribe⟩ ⟨hstart, hdeadline, hlistener⟩
      hrequest ?_
    exact congrArg (· ++ _) hbefore
  | update =>
    rw [Call.afterSubscribe, Call.listen]
    split
    · rename_i hsignal
      exact .listening (congrArg (_ :: ·) hframes) hsignal
        ⟨hcount, hle, hemitted, hrequested, hnodup⟩
        ⟨hsettled, hcancel, houtcomes, hunremoved, hunsubscribe⟩ ⟨hstart, hdeadline, hlistener⟩
        hrequest
    · rename_i hsignal
      rw [Bool.not_eq_true] at hsignal
      exact .afterListening hframes ⟨hcount, hle, hemitted, hrequested, hnodup⟩
        ⟨hsettled, hcancel, houtcomes, hunremoved, hunsubscribe⟩ hrequest
        (hlistener.trans hsignal.symm)

/-- The body is in a call of the bus or the signal. -/
theorem Phase.step_of_body {frame : Frame N} (hframes : s.frames = [frame])
    (hquiet : s.Quiet) (hrequest : s.requestEmitted = false)
    (hreturned : Phase call (call.returned { s with frames := [] } frame))
    (hthrown : Phase call (call.thrown { s with frames := [] } frame))
    (habort : Phase call { s with aborted := true }) (h : Phase call s) {e : Event N}
    (hstep : call.step s e = some s') : Phase call s' := by
  cases e with
  | returns =>
    rw [Call.step, hframes] at hstep
    exact Option.some.inj hstep ▸ hreturned
  | returnsOther =>
    rw [Call.step] at hstep
    split at hstep
    · rename_i hpop
      obtain ⟨rfl, rfl⟩ := List.cons.inj (hframes.symm.trans hpop)
      exact Option.some.inj hstep ▸ hthrown
    · exact absurd hstep nofun
  | throws =>
    rw [Call.step, hframes] at hstep
    exact Option.some.inj hstep ▸ hthrown
  | deliver channel w data =>
    rw [Call.step] at hstep
    split at hstep
    · rw [handle_of_not_requested hrequest] at hstep
      exact Option.some.inj hstep ▸ h
    · exact absurd hstep nofun
  | startTimer =>
    rw [Call.step, hquiet.startTimer] at hstep
    exact absurd hstep nofun
  | deadlineTimer =>
    rw [Call.step, hquiet.deadlineTimer] at hstep
    exact absurd hstep nofun
  | abort =>
    rw [Call.step] at hstep
    split at hstep
    · dsimp only at hstep
      rw [hquiet.listener, if_neg Bool.false_ne_true] at hstep
      have hsame : { s with aborted := true, listener := false } = { s with aborted := true } := by
        rw [← hquiet.listener]
      rw [hsame] at hstep
      exact Option.some.inj hstep ▸ habort
    · exact absurd hstep nofun

/-- A handler that the bus runs after the request. -/
theorem Phase.handle (hframes : ∀ frame ∈ s.frames, frame.Waiting) (hsound : s.Sound)
    (hopen : s.Open) (hrequest : s.requestEmitted = true) (hdeadline : s.deadlineTimer = true)
    (hlistener : s.listener = call.signal) (haborted : call.signal = true → s.aborted = false)
    (channel : Channel) (w : JsWorld N) (data : JsValue N) :
    Phase call (call.handle s channel w data) := by
  have hphase : Phase call s :=
    .requested hframes hsound hopen hrequest hdeadline hlistener haborted
  cases channel with
  | response =>
    rw [Call.handle, Call.onResponse]
    split
    · exact hphase
    · split
      · exact hphase
      · exact .settle hsound hopen hframes
      · exact .settle hsound hopen hframes
  | started =>
    rw [Call.handle, Call.onStarted]
    split
    · exact hphase
    · obtain ⟨hcount, hle, hemitted, hrequested, hnodup⟩ := hsound
      obtain ⟨hsettled, hcancel, houtcomes, hunremoved, hunsubscribe⟩ := hopen
      exact .requested hframes ⟨hcount, hle, hemitted, hrequested, hnodup⟩
        ⟨hsettled, hcancel, houtcomes, hunremoved, hunsubscribe⟩ hrequest hdeadline hlistener
        haborted
  | update =>
    rw [Call.handle, Call.onUpdateEvent]
    split
    · exact hphase
    · rename_i hready
      split
      · exact hphase
      · rename_i update hupdate
        obtain ⟨hcount, hle, hemitted, hrequested, hnodup⟩ := hsound
        obtain ⟨hsettled, hcancel, houtcomes, hunremoved, hunsubscribe⟩ := hopen
        simp only [Bool.or_eq_true, not_or, decide_eq_true_eq, Nat.not_le] at hready
        have hroom := hready.1.2
        refine .requested ?_ ⟨?_, ?_, hemitted, hrequested, hnodup⟩
          ⟨hsettled, hcancel, houtcomes, hunremoved, hunsubscribe⟩ hrequest hdeadline hlistener
          haborted
        · exact List.forall_mem_cons.mpr ⟨trivial, hframes⟩
        · rw [List.length_append, List.length_singleton, hcount]
        · rw [List.length_append, List.length_singleton]
          omega

theorem Phase.step (h : Phase call s) {e : Event N} (hstep : call.step s e = some s') :
    Phase call s' := by
  cases h with
  | subscribing channel hframes hsound hopen hquiet hrequest hbefore =>
    obtain ⟨hcount, hle, hemitted, hrequested, hnodup⟩ := hsound
    obtain ⟨hsettled, hcancel, houtcomes, hunremoved, hunsubscribe⟩ := hopen
    obtain ⟨hstart, hdeadline, hlistener⟩ := hquiet
    refine Phase.step_of_body hframes ⟨hstart, hdeadline, hlistener⟩ hrequest ?_ ?_ ?_ ?_ hstep
    · exact .subscribed rfl ⟨hcount, hle, hemitted, hrequested, hnodup⟩
        ⟨hsettled, hcancel, houtcomes, hunremoved, hunsubscribe⟩ ⟨hstart, hdeadline, hlistener⟩
        hrequest hbefore
    · exact .settle ⟨hcount, hle, hemitted, hrequested, hnodup⟩
        ⟨hsettled, hcancel, houtcomes, hunremoved, hunsubscribe⟩ nofun
    · exact .subscribing channel hframes ⟨hcount, hle, hemitted, hrequested, hnodup⟩
        ⟨hsettled, hcancel, houtcomes, hunremoved, hunsubscribe⟩ ⟨hstart, hdeadline, hlistener⟩
        hrequest hbefore
    · exact .subscribing channel hframes ⟨hcount, hle, hemitted, hrequested, hnodup⟩
        ⟨hsettled, hcancel, houtcomes, hunremoved, hunsubscribe⟩ ⟨hstart, hdeadline, hlistener⟩
        hrequest hbefore
  | listening hframes hsignal hsound hopen hquiet hrequest =>
    obtain ⟨hcount, hle, hemitted, hrequested, hnodup⟩ := hsound
    obtain ⟨hsettled, hcancel, houtcomes, hunremoved, hunsubscribe⟩ := hopen
    obtain ⟨hstart, hdeadline, hlistener⟩ := hquiet
    refine Phase.step_of_body hframes ⟨hstart, hdeadline, hlistener⟩ hrequest ?_ ?_ ?_ ?_ hstep
    · exact .afterListening rfl ⟨hcount, hle, hemitted, hrequested, hnodup⟩
        ⟨hsettled, hcancel, houtcomes, hunremoved, hunsubscribe⟩ hrequest hsignal.symm
    · exact .settle ⟨hcount, hle, hemitted, hrequested, hnodup⟩
        ⟨hsettled, hcancel, houtcomes, hunremoved, hunsubscribe⟩ nofun
    · exact .listening hframes hsignal ⟨hcount, hle, hemitted, hrequested, hnodup⟩
        ⟨hsettled, hcancel, houtcomes, hunremoved, hunsubscribe⟩ ⟨hstart, hdeadline, hlistener⟩
        hrequest
    · exact .listening hframes hsignal ⟨hcount, hle, hemitted, hrequested, hnodup⟩
        ⟨hsettled, hcancel, houtcomes, hunremoved, hunsubscribe⟩ ⟨hstart, hdeadline, hlistener⟩
        hrequest
  | requested hframes hsound hopen hrequest hdeadline hlistener haborted =>
    have hhandle := fun channel w data => Phase.handle hframes hsound hopen hrequest hdeadline
      hlistener haborted channel w data
    obtain ⟨hcount, hle, hemitted, hrequested, hnodup⟩ := hsound
    obtain ⟨hsettled, hcancel, houtcomes, hunremoved, hunsubscribe⟩ := hopen
    have hpop : ∀ (frame : Frame N) (frames : List (Frame N)), s.frames = frame :: frames →
        frame.Waiting ∧ (∀ frame ∈ frames, frame.Waiting) ∧
          Phase call { s with frames := frames } := by
      intro frame frames hpop
      rw [hpop, List.forall_mem_cons] at hframes
      exact ⟨hframes.1, hframes.2, .requested hframes.2
        ⟨hcount, hle, hemitted, hrequested, hnodup⟩
        ⟨hsettled, hcancel, houtcomes, hunremoved, hunsubscribe⟩ hrequest hdeadline hlistener
        haborted⟩
    cases e with
    | returns =>
      rw [Call.step] at hstep
      split at hstep
      · exact absurd hstep nofun
      · rename_i frame frames hcons
        obtain ⟨hframe, -, hrest⟩ := hpop frame frames hcons
        rw [← Option.some.inj hstep]
        cases frame with
        | requesting | updating => exact hrest
        | subscribing | listening | removing | discarding | cancelling => exact absurd hframe id
    | returnsOther =>
      rw [Call.step] at hstep
      split at hstep
      · rename_i channel frames hcons
        exact absurd (hpop _ frames hcons).1 id
      · exact absurd hstep nofun
    | throws =>
      rw [Call.step] at hstep
      split at hstep
      · exact absurd hstep nofun
      · rename_i frame frames hcons
        obtain ⟨hframe, hwaiting, hrest⟩ := hpop frame frames hcons
        rw [← Option.some.inj hstep]
        cases frame with
        | requesting =>
          exact .settle ⟨hcount, hle, hemitted, hrequested, hnodup⟩
            ⟨hsettled, hcancel, houtcomes, hunremoved, hunsubscribe⟩ hwaiting
        | updating => exact hrest
        | subscribing | listening | removing | discarding | cancelling => exact absurd hframe id
    | deliver channel w data =>
      rw [Call.step] at hstep
      split at hstep
      · exact Option.some.inj hstep ▸ hhandle channel w data
      · exact absurd hstep nofun
    | startTimer =>
      rw [Call.step] at hstep
      split at hstep
      · rw [← Option.some.inj hstep]
        exact .settle ⟨hcount, hle, hemitted, hrequested, hnodup⟩
          ⟨hsettled, hcancel, houtcomes, hunremoved, hunsubscribe⟩ hframes
      · exact absurd hstep nofun
    | deadlineTimer =>
      rw [Call.step, if_pos hdeadline] at hstep
      rw [← Option.some.inj hstep]
      exact .settle ⟨hcount, hle, hemitted, hrequested, hnodup⟩
        ⟨hsettled, hcancel, houtcomes, hunremoved, hunsubscribe⟩ hframes
    | abort =>
      rw [Call.step] at hstep
      split at hstep
      · rename_i habort
        rw [Bool.and_eq_true] at habort
        have hlistens : s.listener = true := hlistener.trans habort.1
        dsimp only at hstep
        rw [if_pos hlistens] at hstep
        rw [← Option.some.inj hstep]
        exact .settle ⟨hcount, hle, hemitted, hrequested, hnodup⟩
          ⟨hsettled, hcancel, houtcomes, hunremoved, hunsubscribe⟩ hframes
      · exact absurd hstep nofun
  | decided outcome cancelRemote h => exact .decided outcome cancelRemote (h.step hstep).1

omit [JsonNumber N] in
theorem Phase.start (aborted : Bool) : Phase call (call.start aborted : State N) := by
  rw [Call.start]
  split
  · refine .decided (failure .cancelled (js "cancelled")) false
      ⟨⟨rfl, Nat.zero_le _, rfl, nofun, List.nodup_nil⟩, ⟨rfl, rfl, rfl⟩, rfl, ?_⟩
    exact .resolved nofun nofun rfl nofun
  · exact .subscribing .response rfl ⟨rfl, Nat.zero_le _, rfl, nofun, List.nodup_nil⟩
      ⟨rfl, rfl, rfl, rfl, rfl⟩ ⟨rfl, rfl, rfl⟩ rfl rfl

theorem Phase.run {aborted : Bool} {es : List (Event N)}
    (h : Machine.run call.step (call.start aborted) es = some s) : Phase call s :=
  Machine.run_invariant_of_step (fun _ _ _ hphase hstep => hphase.step hstep) (.start aborted) h

-- ============================================================================
-- The outcome comes
-- ============================================================================

/-- When the calls outside return, the state has a property in the end. -/
def Eventually (call : Call) (s : State N) (P : State N → Prop) : Prop :=
  ∃ n s', Machine.run call.step s (List.replicate n .returns) = some s' ∧ P s'

theorem Eventually.returns {P : State N → Prop} (hstep : call.step s .returns = some s')
    (h : Eventually call s' P) : Eventually call s P := by
  obtain ⟨n, last, hrun, hlast⟩ := h
  exact ⟨n + 1, last, (Machine.run_cons hstep).trans hrun, hlast⟩

/-- What a settlement has left to do. -/
def State.work (s : State N) : Nat :=
  match s.frames with
  | .removing _ rest _ _ :: _ => rest.length + 2
  | .cancelling _ :: _ => 1
  | _ => 0

omit [JsonNumber N] in
theorem work_of_waiting (h : ∀ frame ∈ s.frames, frame.Waiting) : s.work = 0 := by
  rw [State.work]
  split
  · rename_i hframes
    rw [hframes, List.forall_mem_cons] at h
    exact absurd h.1 id
  · rename_i hframes
    rw [hframes, List.forall_mem_cons] at h
    exact absurd h.1 id
  · rfl

omit [JsonNumber N] in
theorem work_removeNext (hframes : ∀ frame ∈ s.frames, frame.Waiting) (rest : List Channel) :
    (s.removeNext outcome cancelRemote rest).work < rest.length + 2 := by
  cases rest with
  | nil =>
    rw [State.removeNext, State.afterCleanup]
    split
    · exact Nat.lt_succ_self 1
    · have hnone : (s.resolve outcome).work = 0 := work_of_waiting hframes
      omega
  | cons channel rest =>
    rw [List.length_cons]
    exact Nat.lt_succ_self (rest.length + 2)

theorem Decided.eventually (h : Decided outcome cancelRemote s) :
    Eventually call s fun s' => s'.outcomes = [outcome] := by
  induction hwork : s.work using Nat.strong_induction_on generalizing s with
  | _ work ih =>
    cases h.stage with
    | removing channel rest frames hframes hwaiting hcancel houtcomes hleft =>
      have hstep : call.step s .returns =
          some (call.returned { s with frames := frames }
            (.removing channel rest outcome cancelRemote)) := by
        rw [Call.step, hframes]
      have hless : (call.returned { s with frames := frames }
          (.removing channel rest outcome cancelRemote)).work < work := by
        have hleftover : s.work = rest.length + 2 := by rw [State.work, hframes]
        rw [← hwork, hleftover]
        exact work_removeNext hwaiting rest
      exact .returns hstep (ih _ hless (h.step hstep).1 rfl)
    | cancelling frames hframes hwaiting hremote houtcomes hleft =>
      have hstep : call.step s .returns =
          some (State.resolve { s with frames := frames } outcome) := by
        rw [Call.step, hframes]
        rfl
      refine ⟨1, _, (Machine.run_cons hstep).trans rfl, ?_⟩
      rw [State.resolve, houtcomes]
      rfl
    | resolved hwaiting hremote houtcomes hleft => exact ⟨0, s, rfl, houtcomes⟩

theorem Phase.eventually_of_settled (h : Phase call s) (hsettled : s.settled = true) :
    Eventually call s fun s' => ∃ outcome, s'.outcomes = [outcome] := by
  cases h with
  | subscribing _ _ _ hopen => exact absurd (hopen.settled.symm.trans hsettled) nofun
  | listening _ _ _ hopen => exact absurd (hopen.settled.symm.trans hsettled) nofun
  | requested _ _ hopen => exact absurd (hopen.settled.symm.trans hsettled) nofun
  | decided outcome cancelRemote h =>
    obtain ⟨n, last, hrun, hlast⟩ := h.eventually
    exact ⟨n, last, hrun, outcome, hlast⟩

theorem Phase.eventually_of_listening (h : Phase call s) (hframes : s.frames = [.listening])
    (hsignal : call.signal = true) (haborted : s.aborted = true) :
    Eventually call s fun s' => ∃ outcome, s'.outcomes = [outcome] := by
  have hstep : call.step s .returns = some (State.settle
      { s with frames := [], listener := true } (failure .cancelled (js "cancelled")) false) := by
    rw [Call.step, hframes]
    exact congrArg some (if_pos (by rw [hsignal]; exact haborted))
  exact .returns hstep ((h.step hstep).eventually_of_settled settle_settled)

theorem Phase.eventually_of_subscribing (h : Phase call s) {channel : Channel}
    (hframes : s.frames = [.subscribing channel]) (hsettled : s.settled = false)
    (hsignal : call.signal = true) (haborted : s.aborted = true) :
    Eventually call s fun s' => ∃ outcome, s'.outcomes = [outcome] := by
  have hnext : ∀ (s : State N) (channel : Channel), s.frames = [.subscribing channel] →
      s.settled = false → call.step s .returns = some (call.afterSubscribe { s with
        frames := []
        subscriptions := s.subscriptions ++ [channel]
        unsubscribe := s.unsubscribe ++ [channel] } channel) := by
    intro s channel hframes hsettled
    rw [Call.step, hframes]
    exact congrArg some (if_neg (by rw [hsettled]; exact nofun))
  -- from the last channel to the first
  have hupdate : ∀ s : State N, Phase call s → s.frames = [.subscribing .update] →
      s.settled = false → s.aborted = true →
      Eventually call s fun s' => ∃ outcome, s'.outcomes = [outcome] := by
    intro s h hframes hsettled haborted
    have hstep := hnext s .update hframes hsettled
    rw [Call.afterSubscribe, Call.listen, if_pos hsignal] at hstep
    exact .returns hstep ((h.step hstep).eventually_of_listening rfl hsignal haborted)
  have hstarted : ∀ s : State N, Phase call s → s.frames = [.subscribing .started] →
      s.settled = false → s.aborted = true →
      Eventually call s fun s' => ∃ outcome, s'.outcomes = [outcome] := by
    intro s h hframes hsettled haborted
    have hstep := hnext s .started hframes hsettled
    exact .returns hstep (hupdate _ (h.step hstep) rfl hsettled haborted)
  cases channel with
  | response =>
    have hstep := hnext s .response hframes hsettled
    exact .returns hstep (hstarted _ (h.step hstep) rfl hsettled haborted)
  | started => exact hstarted s h hframes hsettled haborted
  | update => exact hupdate s h hframes hsettled haborted

/-- The call is settled, or will be: its signal is aborted. -/
def Doomed (call : Call) (s : State N) : Prop :=
  s.settled = true ∨ call.signal = true ∧ s.aborted = true

theorem Phase.eventually_of_doomed (h : Phase call s) (hdoomed : Doomed call s) :
    Eventually call s fun s' => ∃ outcome, s'.outcomes = [outcome] := by
  rcases hdoomed with hsettled | ⟨hsignal, haborted⟩
  · exact h.eventually_of_settled hsettled
  · cases hcase : h with
    | subscribing channel hframes _ hopen =>
      exact h.eventually_of_subscribing hframes hopen.settled hsignal haborted
    | listening hframes => exact h.eventually_of_listening hframes hsignal haborted
    | requested _ _ _ _ _ _ hnot => exact absurd ((hnot hsignal).symm.trans haborted) nofun
    | decided _ _ hdecided => exact h.eventually_of_settled hdecided.settled

omit [JsonNumber N] in
theorem afterSubscribe_aborted (channel : Channel) :
    (call.afterSubscribe s channel).aborted = s.aborted := by
  cases channel with
  | response | started => rfl
  | update =>
    rw [Call.afterSubscribe, Call.listen]
    split
    · rfl
    · rw [Call.afterListening]
      split
      · exact settle_aborted
      · rfl

theorem handle_aborted (channel : Channel) (w : JsWorld N) (data : JsValue N) :
    (call.handle s channel w data).aborted = s.aborted := by
  cases channel with
  | response =>
    rw [Call.handle, Call.onResponse]
    split
    · rfl
    · split
      · rfl
      · exact settle_aborted
      · exact settle_aborted
  | started =>
    rw [Call.handle, Call.onStarted]
    split <;> rfl
  | update =>
    rw [Call.handle, Call.onUpdateEvent]
    split
    · rfl
    · split <;> rfl

omit [JsonNumber N] in
theorem returned_aborted (frame : Frame N) : (call.returned s frame).aborted = s.aborted := by
  cases frame with
  | subscribing channel =>
    rw [Call.returned, Call.subscribed]
    split
    · rfl
    · exact afterSubscribe_aborted channel
  | listening =>
    rw [Call.returned, Call.afterListening]
    split
    · exact settle_aborted
    · rfl
  | removing channel rest outcome cancelRemote => exact (removeNext_same rest).2.1
  | discarding channel => exact afterSubscribe_aborted channel
  | requesting | cancelling | updating => rfl

omit [JsonNumber N] in
theorem thrown_aborted (frame : Frame N) : (call.thrown s frame).aborted = s.aborted := by
  cases frame with
  | subscribing | listening | requesting => exact settle_aborted
  | removing channel rest outcome cancelRemote => exact (removeNext_same rest).2.1
  | discarding channel => exact afterSubscribe_aborted channel
  | cancelling | updating => rfl

/-- An abort is not taken back. -/
theorem aborted_of_step (haborted : s.aborted = true) {e : Event N}
    (hstep : call.step s e = some s') : s'.aborted = true := by
  cases e with
  | returns =>
    rw [Call.step] at hstep
    split at hstep
    · exact absurd hstep nofun
    · rw [← Option.some.inj hstep, returned_aborted]
      exact haborted
  | returnsOther =>
    rw [Call.step] at hstep
    split at hstep
    · rw [← Option.some.inj hstep, thrown_aborted]
      exact haborted
    · exact absurd hstep nofun
  | throws =>
    rw [Call.step] at hstep
    split at hstep
    · exact absurd hstep nofun
    · rw [← Option.some.inj hstep, thrown_aborted]
      exact haborted
  | deliver channel w data =>
    rw [Call.step] at hstep
    split at hstep
    · rw [← Option.some.inj hstep, handle_aborted]
      exact haborted
    · exact absurd hstep nofun
  | startTimer | deadlineTimer =>
    rw [Call.step] at hstep
    split at hstep
    · rw [← Option.some.inj hstep, settle_aborted]
      exact haborted
    · exact absurd hstep nofun
  | abort =>
    rw [Call.step, haborted, Bool.not_true, Bool.and_false] at hstep
    exact absurd hstep nofun

theorem Phase.settled_of_step (h : Phase call s) (hsettled : s.settled = true) {e : Event N}
    (hstep : call.step s e = some s') : s'.settled = true ∧ s'.updates = s.updates := by
  cases h with
  | subscribing _ _ _ hopen => exact absurd (hopen.settled.symm.trans hsettled) nofun
  | listening _ _ _ hopen => exact absurd (hopen.settled.symm.trans hsettled) nofun
  | requested _ _ hopen => exact absurd (hopen.settled.symm.trans hsettled) nofun
  | decided outcome cancelRemote h =>
    obtain ⟨hdecided, hupdates⟩ := h.step hstep
    exact ⟨hdecided.settled, hupdates⟩

theorem Doomed.step (h : Doomed call s) (hphase : Phase call s) {e : Event N}
    (hstep : call.step s e = some s') : Doomed call s' := by
  rcases h with hsettled | ⟨hsignal, haborted⟩
  · exact .inl (hphase.settled_of_step hsettled hstep).1
  · exact .inr ⟨hsignal, aborted_of_step haborted hstep⟩

-- ============================================================================
-- Events
-- ============================================================================

/-- An event of another call, or of none. -/
def Foreign (call : Call) : Event N → Prop
  | .deliver _ w data => ¬Concerns w data call.identity
  | _ => False

/-- A timer, an abort, or a terminal of the call after its request. -/
def Decisive (call : Call) (s : State N) : Event N → Prop
  | .startTimer | .deadlineTimer | .abort => True
  | .deliver .response w data => s.requestEmitted = true ∧ Concerns w data call.identity
  | _ => False

theorem eq_of_foreign {e : Event N} (hforeign : Foreign call e)
    (hstep : call.step s e = some s') : s' = s := by
  cases e with
  | deliver channel w data =>
    have hnot : ¬Concerns w data call.identity := hforeign
    rw [Call.step] at hstep
    split at hstep
    · rw [← Option.some.inj hstep]
      cases channel with
      | response =>
        rw [Call.handle, Call.onResponse, parseTerminal_of_not_concerns hnot]
        split <;> rfl
      | started =>
        rw [Call.handle, Call.onStarted, isStarted_of_not_concerns hnot, Bool.not_false,
          Bool.or_true]
        rfl
      | update =>
        rw [Call.handle, Call.onUpdateEvent, parseUpdate_of_not_concerns hnot]
        split <;> rfl
    · exact absurd hstep nofun
  | returns | returnsOther | throws | startTimer | deadlineTimer | abort =>
    exact absurd hforeign id

theorem doomed_of_decisive {e : Event N} (hdecisive : Decisive call s e)
    (hstep : call.step s e = some s') : Doomed call s' := by
  cases e with
  | startTimer | deadlineTimer =>
    rw [Call.step] at hstep
    split at hstep
    · rw [← Option.some.inj hstep]
      exact .inl settle_settled
    · exact absurd hstep nofun
  | abort =>
    rw [Call.step] at hstep
    split at hstep
    · rename_i habort
      rw [Bool.and_eq_true] at habort
      rw [← Option.some.inj hstep]
      dsimp only
      split
      · exact .inl settle_settled
      · exact .inr ⟨habort.1, rfl⟩
    · exact absurd hstep nofun
  | deliver channel w data =>
    cases channel with
    | response =>
      obtain ⟨hrequest, hconcerns⟩ := hdecisive
      rw [Call.step] at hstep
      split at hstep
      · rw [← Option.some.inj hstep, Call.handle, Call.onResponse, hrequest, Bool.not_true,
          Bool.false_or]
        split
        · rename_i hsettled
          exact .inl hsettled
        · split
          · rename_i hunrelated
            exact absurd hconcerns (not_concerns_of_parseTerminal hunrelated)
          · exact .inl settle_settled
          · exact .inl settle_settled
      · exact absurd hstep nofun
    | started | update => exact absurd hdecisive id
  | returns | returnsOther | throws => exact absurd hdecisive id

/-- A terminal that is valid settles the call, without a cancel. -/
theorem Phase.decided_of_terminal (h : Phase call s) (hrequest : s.requestEmitted = true)
    (hsettled : s.settled = false) {w : JsWorld N} {data : JsValue N}
    (hparse : parseDelegationV2Terminal w data call.identity call.requestedResult =
      .outcome outcome) (hstep : call.step s (.deliver .response w data) = some s') :
    Decided outcome false s' := by
  cases h with
  | subscribing _ _ _ _ _ hnot => exact absurd (hnot.symm.trans hrequest) nofun
  | listening _ _ _ _ _ hnot => exact absurd (hnot.symm.trans hrequest) nofun
  | requested hframes hsound hopen =>
    rw [Call.step] at hstep
    split at hstep
    · rw [← Option.some.inj hstep, Call.handle, Call.onResponse, hparse, hrequest, hsettled]
      exact .settle hsound hopen hframes
    · exact absurd hstep nofun
  | decided _ _ h => exact absurd (hsettled.symm.trans h.settled) nofun

theorem Decided.run (h : Decided outcome cancelRemote s) {es : List (Event N)}
    (hrun : Machine.run call.step s es = some s') : Decided outcome cancelRemote s' :=
  Machine.run_invariant_of_step (fun _ _ _ hdecided hstep => (hdecided.step hstep).1) h hrun

omit [JsonNumber N] in
theorem Decided.cancelEmitted (h : Decided outcome false s) : s.cancelEmitted = false := by
  cases h.stage with
  | removing _ _ _ _ _ hcancel => exact hcancel
  | cancelling _ _ _ hremote => exact absurd hremote nofun
  | resolved _ hremote =>
    rw [← Bool.not_eq_true]
    exact fun htrue => absurd (hremote htrue) nofun

omit [JsonNumber N] in
theorem Decided.outcomes (h : Decided outcome cancelRemote s) :
    s.outcomes = [] ∨ s.outcomes = [outcome] := by
  cases h.stage with
  | removing _ _ _ _ _ _ houtcomes => exact .inl houtcomes
  | cancelling _ _ _ _ houtcomes => exact .inl houtcomes
  | resolved _ _ houtcomes => exact .inr houtcomes

-- ============================================================================
-- Every run
-- ============================================================================

/-- Nothing of the call is left outside but what could not be removed. -/
def State.Clean (s : State N) : Prop :=
  s.Quiet ∧ ∀ channel ∈ s.subscriptions, channel ∈ s.unremoved

omit [JsonNumber N] in
theorem Phase.sound (h : Phase call s) : s.Sound := by
  cases h with
  | subscribing _ _ hsound | listening _ _ hsound | requested _ hsound => exact hsound
  | decided _ _ h => exact h.sound

omit [JsonNumber N] in
theorem Phase.outcomes (h : Phase call s) :
    s.outcomes = [] ∨ s.Clean ∧ ∃ outcome, s.outcomes = [outcome] := by
  cases h with
  | subscribing _ _ _ hopen | listening _ _ _ hopen | requested _ _ hopen =>
    exact .inl hopen.outcomes
  | decided outcome _ h =>
    cases h.stage with
    | removing _ _ _ _ _ _ houtcomes => exact .inl houtcomes
    | cancelling _ _ _ _ houtcomes => exact .inl houtcomes
    | resolved _ _ houtcomes hleft => exact .inr ⟨⟨h.quiet, hleft⟩, outcome, houtcomes⟩

omit [JsonNumber N] in
/-- When no call outside is left, a settlement is carried out. -/
theorem Phase.outcome_of_done (h : Phase call s) (hdoomed : Doomed call s)
    (hdone : s.frames = []) : ∃ outcome, s.outcomes = [outcome] := by
  cases h with
  | subscribing _ hframes => exact absurd (hframes.symm.trans hdone) nofun
  | listening hframes => exact absurd (hframes.symm.trans hdone) nofun
  | requested _ _ hopen _ _ _ hnot =>
    rcases hdoomed with hsettled | ⟨hsignal, haborted⟩
    · exact absurd (hopen.settled.symm.trans hsettled) nofun
    · exact absurd ((hnot hsignal).symm.trans haborted) nofun
  | decided outcome _ h =>
    cases h.stage with
    | removing _ _ _ hframes => exact absurd (hframes.symm.trans hdone) nofun
    | cancelling _ hframes => exact absurd (hframes.symm.trans hdone) nofun
    | resolved _ _ houtcomes => exact ⟨outcome, houtcomes⟩

omit [JsonNumber N] in
theorem State.Sound.emissions (h : s.Sound) :
    s.emitted = [] ∨ s.emitted = [.request] ∨ s.emitted = [.request, .cancel] := by
  have hemitted := h.emitted
  cases hcancel : s.cancelEmitted with
  | false => cases hrequest : s.requestEmitted <;> simp [hemitted, hcancel, hrequest]
  | true =>
    have hrequest := h.requested hcancel
    simp [hemitted, hcancel, hrequest]

theorem Doomed.run (h : Doomed call s) (hphase : Phase call s) {es : List (Event N)}
    (hrun : Machine.run call.step s es = some s') : Phase call s' ∧ Doomed call s' :=
  Machine.run_invariant_of_step (I := fun s => Phase call s ∧ Doomed call s)
    (fun _ _ _ hboth hstep => ⟨hboth.1.step hstep, hboth.2.step hboth.1 hstep⟩) ⟨hphase, h⟩ hrun

/-- In every run of a call there is at most one outcome, and nothing of the call is left outside
    when it is there; the bus gets the request and after it at most one cancel; the updates are
    bounded, and there are none after the settlement; and events of other calls change nothing.
    Once a timer, an abort or a terminal after the request is delivered, the outcome is there
    when no call outside is left, and comes when these return; and a terminal that is valid
    leaves no cancel and no other outcome. -/
theorem run_settles {aborted : Bool} {es : List (Event N)}
    (hrun : Machine.run call.step (call.start aborted) es = some s) :
    s.outcomes.length ≤ 1 ∧ (s.outcomes ≠ [] → s.Clean) ∧
    (s.emitted = [] ∨ s.emitted = [.request] ∨ s.emitted = [.request, .cancel]) ∧
    s.updates.length ≤ DelegationV2Limits.maxUpdates ∧
    ∀ e s', call.step s e = some s' →
      (s.settled = true → s'.updates = s.updates) ∧
      (Foreign call e → s' = s) ∧
      (Decisive call s e → ∀ later last, Machine.run call.step s' later = some last →
        (last.frames = [] → ∃ outcome, last.outcomes = [outcome]) ∧
        Eventually call last fun last => ∃ outcome, last.outcomes = [outcome]) ∧
      ∀ w data outcome, e = .deliver .response w data →
        s.requestEmitted = true → s.settled = false →
        parseDelegationV2Terminal w data call.identity call.requestedResult = .outcome outcome →
        ∀ later last, Machine.run call.step s' later = some last →
          .cancel ∉ last.emitted ∧ (last.outcomes = [] ∨ last.outcomes = [outcome]) := by
  have hphase := Phase.run hrun
  refine ⟨?_, ?_, hphase.sound.emissions, hphase.sound.count_le, fun e s' hstep => ⟨?_, ?_, ?_, ?_⟩⟩
  · rcases hphase.outcomes with hnone | ⟨-, outcome, hone⟩
    · rw [hnone]
      exact Nat.zero_le 1
    · rw [hone]
      exact Nat.le_refl 1
  · intro hsome
    exact (hphase.outcomes.resolve_left hsome).1
  · exact fun hsettled => (hphase.settled_of_step hsettled hstep).2
  · exact fun hforeign => eq_of_foreign hforeign hstep
  · intro hdecisive later last hlater
    obtain ⟨hlast, hdoomed⟩ :=
      (doomed_of_decisive hdecisive hstep).run (hphase.step hstep) hlater
    exact ⟨hlast.outcome_of_done hdoomed, hlast.eventually_of_doomed hdoomed⟩
  · rintro w data outcome rfl hrequest hsettled hparse later last hlater
    have hdecided := (hphase.decided_of_terminal hrequest hsettled hparse hstep).run hlater
    refine ⟨?_, hdecided.outcomes⟩
    rw [hdecided.sound.emitted, hdecided.cancelEmitted]
    split <;> simp

end

/-- A call with a signal and without an update callback. -/
def sampleCall : Call := ⟨⟨js "r", js "o", js "n"⟩, .text, true, false⟩

/-- The bus takes the three subscriptions, the signal is aborted in the request, and each call
    outside returns. -/
def abortedRun : List (Event Int) :=
  [.returns, .returns, .returns, .returns, .abort, .returns, .returns, .returns, .returns, .returns]

theorem run_aborted : ∃ s, Machine.run sampleCall.step (sampleCall.start false) abortedRun = some s ∧
    s.outcomes = [failure .cancelled (js "cancelled")] ∧ s.emitted = [.request, .cancel] ∧
    s.Clean := by
  obtain ⟨s, hrun⟩ : ∃ s, Machine.run sampleCall.step (sampleCall.start false) abortedRun = some s :=
    ⟨_, rfl⟩
  have hends : (Machine.run sampleCall.step (sampleCall.start false) abortedRun).map
      (fun s => (s.outcomes, s.emitted)) =
        some ([failure .cancelled (js "cancelled")], [.request, .cancel]) := rfl
  rw [hrun] at hends
  obtain ⟨houtcomes, hemitted⟩ := Prod.mk.inj (Option.some.inj hends)
  refine ⟨s, hrun, houtcomes, hemitted, (run_settles hrun).2.1 ?_⟩
  rw [houtcomes]
  exact nofun

/-- The two prototypes, and a terminal of the call. -/
def sampleWorld : JsWorld Int where
  heap := smallWorld.heap.take 2 ++
    [⟨none, false, some 0, [⟨js "version", true, .data (.num 2)⟩,
      ⟨js "requestId", true, .data (.str (js "r"))⟩,
      ⟨js "ownerRunId", true, .data (.str (js "o"))⟩, ⟨js "nodeId", true, .data (.str (js "n"))⟩,
      ⟨js "status", true, .data (.str (js "failed"))⟩], by decide, by decide⟩]
  objectPrototype := 0
  arrayPrototype := 1
  call := fun _ _ => none

/-- A terminal of the call that the bus delivers inside its first subscription. -/
theorem run_early : ∃ s, Machine.run sampleCall.step (sampleCall.start false)
      [.deliver .response sampleWorld (.object 2), .returns, .returns, .returns, .returns,
        .returns] = some s ∧
    s.frames = [] ∧ s.settled = false ∧ s.outcomes = [] ∧
    parseDelegationV2Terminal sampleWorld (.object 2) sampleCall.identity
      sampleCall.requestedResult = .outcome (.failure .failed (js "failed") none) := by
  refine ⟨_, rfl, rfl, rfl, rfl, ?_⟩
  rfl

end DelegationV2Client

end PiRlm.Shell
