import SagaEngine.Proofs.TrialAdmission
import SagaEngine.Remote.Call
/-!
# What a call leaves behind in its breaker

A caller asks its breaker, makes the call and tells the breaker how it went, before the next call
asks. So between two calls no trial should be under way, and only the cool-down of the last trip
should keep a call back. `Settles` is that promise for one call after others. It fails for a call
that raises a value without a message: nothing is told about it, and its trial stays under way
for good. Main statements: `every_call_settles_iff` and `mute_raise_blocks_circuit`.
-/

namespace SagaEngine

/-- One call: when the breaker is asked, how the call comes back if it is made, and when. -/
structure RemoteCall where
  method : String
  asked : Int
  reply : CallReply
  told : Int

/-- A call failed if it raised anything or its status may be repeated. -/
def CallReply.failed : CallReply → Bool
  | status code _ => StatusCode.classify code = .retryable
  | threw _ | threwOther => true

/-- The trial calls that have gone out and not come back. -/
def BreakerMemory.outstanding : BreakerMemory → Nat
  | halfOpen inFlight _ => inFlight
  | _ => 0

namespace Breaker

theorem admitted_phase (b : Breaker) (trial : 0 < b.options.halfOpenCalls) (now : Int)
    (admitted : (b.tryAcquire now).1 = true) : (b.tryAcquire now).2.memory.phase ≠ .opened := by
  intro shut
  have refused := (b.perform_move trial (.acquire now)).not_admitted shut
  rw [admits, admitted] at refused
  cases refused

theorem eq_of_parts {b b' : Breaker} (options : b.options = b'.options)
    (memory : b.memory = b'.memory) : b = b' := by
  cases b
  cases b'
  cases options
  cases memory
  rfl

/-- A failure always leaves a trace, unless the circuit is open. -/
theorem record_failure_ne (b : Breaker) (now : Int) (shut : b.memory.phase ≠ .opened) :
    b.record true now ≠ b := by
  obtain ⟨o, memory⟩ := b
  intro same
  cases memory with
  | opened => exact shut rfl
  | halfOpen => cases congrArg Breaker.memory same
  | closed window failures streak =>
    simp only [record, Bool.true_and, if_true] at same
    split at same
    · cases congrArg Breaker.memory same
    · have streaks := congrArg Breaker.memory same
      simp only [BreakerMemory.closed.injEq] at streaks
      omega

end Breaker

namespace RemoteCaller

/-- A caller whose breaker has no history. -/
def fresh (target : String) (timeout : Int) (o : BreakerOptions) : RemoteCaller where
  target := target
  timeout := timeout
  breaker := .ofOptions o

def admits (c : RemoteCaller) (call : RemoteCall) : Bool := (c.admission call.asked).1.isSome

/-- The caller after a call, which is made only if the breaker lets it out. -/
def perform (c : RemoteCaller) (call : RemoteCall) : RemoteCaller :=
  match c.admission call.asked with
  | (none, c) => c
  | (some _, c) => (c.settle call.method call.reply call.told).2.2

/-- The caller after calls that followed one another, the latest first. -/
def after (c : RemoteCaller) : List RemoteCall → RemoteCaller
  | [] => c
  | call :: past => (after c past).perform call

/-- When the circuit last opened: an admitted call that leaves it open has opened it. -/
def lastTrip? (c : RemoteCaller) : List RemoteCall → Option Int
  | [] => none
  | call :: past =>
    if (c.after past).admits call = true ∧ (c.after (call :: past)).breaker.memory.phase = .opened
    then some call.told
    else lastTrip? c past

/-- What holds of every call, given the calls before it. -/
def Along (P : List RemoteCall → RemoteCall → Prop) (log : List RemoteCall) : Prop :=
  ∀ call past, call :: past <:+ log → P past call

/-- A call after others settles: one result is told if it is made and none if it is not, no trial
is left under way, only the cool-down of the last trip keeps it back, and no half-open circuit
does. -/
structure Settles (c : RemoteCaller) (past : List RemoteCall) (call : RemoteCall) : Prop where
  reports : (c.after past).admits call = true →
    (c.after (call :: past)).breaker =
      ((c.after past).breaker.tryAcquire call.asked).2.record call.reply.failed call.told
  refuses_quietly : (c.after past).admits call = false →
    (c.after (call :: past)).breaker = (c.after past).breaker
  idle : (c.after (call :: past)).breaker.memory.outstanding = 0
  refused_iff : (c.after past).admits call = false ↔
    ∃ trip, c.lastTrip? past = some trip ∧ call.asked < trip + c.breaker.options.openCooldown
  tries : (c.after past).breaker.memory.phase = .halfOpen → (c.after past).admits call = true

/-- A call that is made raises nothing or something with a message. -/
def RaisesMessages (c : RemoteCaller) (past : List RemoteCall) (call : RemoteCall) : Prop :=
  (c.after past).admits call = true → call.reply ≠ .threwOther

/-- Once the circuit has left the open state, a call does not ask at a time within the cool-down
of the last trip, as it would after the clock was set back. -/
def AsksAfterCooldown (c : RemoteCaller) (past : List RemoteCall) (call : RemoteCall) : Prop :=
  (c.after past).breaker.memory.phase ≠ .opened → ∀ trip, c.lastTrip? past = some trip →
    trip + c.breaker.options.openCooldown ≤ call.asked

/-- The clock never goes back, within a call or between two. -/
def Clocked (log : List RemoteCall) : Prop :=
  log.Pairwise (fun later earlier => earlier.told ≤ later.asked) ∧
    ∀ call ∈ log, call.asked ≤ call.told

section

variable {c : RemoteCaller} {call : RemoteCall} {past log : List RemoteCall}

theorem along_cons {P : List RemoteCall → RemoteCall → Prop} :
    Along P (call :: past) ↔ P past call ∧ Along P past := by
  constructor
  · intro along
    exact ⟨along call past List.suffix_rfl,
      fun other before suffix => along other before (suffix.trans (List.suffix_cons ..))⟩
  · rintro ⟨latest, earlier⟩ other before suffix
    rcases List.suffix_cons_iff.1 suffix with same | within
    · cases same
      exact latest
    · exact earlier other before within

theorem admits_eq (c : RemoteCaller) (call : RemoteCall) :
    c.admits call = (c.breaker.tryAcquire call.asked).1 := by
  simp only [admits, admission]
  split <;> simp_all

theorem perform_of_refused (refused : c.admits call = false) :
    (c.perform call).breaker = (c.breaker.tryAcquire call.asked).2 := by
  rw [admits_eq] at refused
  simp [perform, admission, refused]

theorem settle_breaker (c : RemoteCaller) (method : String) {reply : CallReply} (told : Int)
    (message : reply ≠ .threwOther) :
    (c.settle method reply told).2.2.breaker = c.breaker.record reply.failed told := by
  cases reply with
  | threwOther => exact absurd rfl message
  | threw => rfl
  | status code text =>
    by_cases retryable : StatusCode.classify code = .retryable
    · simp [settle, CallResult.ofStatus, CallReply.failed, retryable, Breaker.onFailure]
    · simp [settle, CallResult.ofStatus, CallReply.failed, retryable, Breaker.onSuccess]

theorem perform_of_admitted (admitted : c.admits call = true)
    (message : call.reply ≠ .threwOther) :
    (c.perform call).breaker =
      (c.breaker.tryAcquire call.asked).2.record call.reply.failed call.told := by
  rw [admits_eq] at admitted
  simp only [perform, admission, admitted, if_true]
  exact settle_breaker _ _ _ message

/-- Nothing is told of a raised value without a message. -/
theorem perform_of_mute (admitted : c.admits call = true) (mute : call.reply = .threwOther) :
    (c.perform call).breaker = (c.breaker.tryAcquire call.asked).2 := by
  rw [admits_eq] at admitted
  simp [perform, admission, admitted, mute, settle]

theorem perform_options (c : RemoteCaller) (call : RemoteCall) :
    (c.perform call).breaker.options = c.breaker.options := by
  cases admitted : c.admits call with
  | false => rw [perform_of_refused admitted, Breaker.tryAcquire_options]
  | true =>
    by_cases mute : call.reply = .threwOther
    · rw [perform_of_mute admitted mute, Breaker.tryAcquire_options]
    · rw [perform_of_admitted admitted mute, Breaker.record_options, Breaker.tryAcquire_options]

theorem after_options (c : RemoteCaller) (log : List RemoteCall) :
    (c.after log).breaker.options = c.breaker.options := by
  induction log with
  | nil => rfl
  | cons call past ih => exact (perform_options _ call).trans ih

/-- A call moves its breaker by a question and, if it is made and raises nothing mute, by one
result. -/
theorem perform_moves (c : RemoteCaller) (trial : 0 < c.breaker.options.halfOpenCalls)
    (call : RemoteCall) :
    ∃ m, CircuitMove c.breaker.options c.breaker.memory (.acquire call.asked) (c.admits call) m ∧
      (c.admits call = false ∨ call.reply = .threwOther →
        (c.perform call).breaker.memory = m) ∧
      (c.admits call = true → call.reply ≠ .threwOther →
        CircuitMove c.breaker.options m (.report 0 call.reply.failed call.told) false
          (c.perform call).breaker.memory) := by
  have asks := c.breaker.perform_move trial (.acquire call.asked)
  have same := c.breaker.tryAcquire_options call.asked
  rw [Breaker.admits, ← admits_eq] at asks
  refine ⟨_, asks, ?_, ?_⟩
  · intro untold
    cases admitted : c.admits call with
    | false => exact congrArg _ (perform_of_refused admitted)
    | true =>
      rcases untold with refused | mute
      · rw [admitted] at refused
        cases refused
      · exact congrArg _ (perform_of_mute admitted mute)
  · intro admitted message
    rw [perform_of_admitted admitted message]
    have tells := (c.breaker.tryAcquire call.asked).2.perform_move (by rwa [same])
      (.report 0 call.reply.failed call.told)
    rw [same] at tells
    cases failed : call.reply.failed <;> rw [failed] at tells <;> exact tells

end

end RemoteCaller

namespace CircuitMove

variable {o : BreakerOptions} {m m' : BreakerMemory} {call : Nat} {failed : Bool} {now : Int}

/-- A refused question changes nothing: either the cool-down runs or every trial is taken. -/
theorem of_refused (move : CircuitMove o m (.acquire now) false m') :
    m' = m ∧ ((∃ since, m = .opened since ∧ now < since + o.openCooldown) ∨
      ∃ inFlight successes, m = .halfOpen inFlight successes ∧
        o.halfOpenCalls ≤ inFlight + successes) := by
  cases move with
  | refuses since _ hot => exact ⟨rfl, .inl ⟨since, rfl, hot⟩⟩
  | declines inFlight successes _ full => exact ⟨rfl, .inr ⟨inFlight, successes, rfl, full⟩⟩

end CircuitMove

namespace RemoteCaller

section

variable {c : RemoteCaller} {call : RemoteCall} {past log : List RemoteCall}

theorem after_moves (trial : 0 < c.breaker.options.halfOpenCalls) (past : List RemoteCall)
    (call : RemoteCall) :
    ∃ m, CircuitMove c.breaker.options (c.after past).breaker.memory (.acquire call.asked)
        ((c.after past).admits call) m ∧
      ((c.after past).admits call = false ∨ call.reply = .threwOther →
        (c.after (call :: past)).breaker.memory = m) ∧
      ((c.after past).admits call = true → call.reply ≠ .threwOther →
        CircuitMove c.breaker.options m (.report 0 call.reply.failed call.told) false
          (c.after (call :: past)).breaker.memory) := by
  have same := after_options c past
  have moves := (c.after past).perform_moves (by rwa [same]) call
  rwa [same] at moves

theorem lastTrip_of_refused (refused : (c.after past).admits call = false) :
    c.lastTrip? (call :: past) = c.lastTrip? past := by
  simp [lastTrip?, refused]

theorem lastTrip_of_passes (passes : (c.after (call :: past)).breaker.memory.phase ≠ .opened) :
    c.lastTrip? (call :: past) = c.lastTrip? past := by
  simp [lastTrip?, passes]

theorem lastTrip_of_trips (admitted : (c.after past).admits call = true)
    (opened : (c.after (call :: past)).breaker.memory.phase = .opened) :
    c.lastTrip? (call :: past) = some call.told := by
  simp [lastTrip?, admitted, opened]

/-- A circuit is open since its last trip. -/
theorem lastTrip_of_opened (trial : 0 < c.breaker.options.halfOpenCalls)
    (calm : c.breaker.memory.phase = .closed) {since : Int}
    (opened : (c.after log).breaker.memory = .opened since) : c.lastTrip? log = some since := by
  induction log with
  | nil =>
    rw [after] at opened
    rw [opened] at calm
    cases calm
  | cons call past ih =>
    obtain ⟨m, asks, untold, told⟩ := after_moves trial past call
    cases admitted : (c.after past).admits call with
    | false =>
      rw [lastTrip_of_refused admitted]
      rw [admitted] at asks
      exact ih (by rw [← asks.of_refused.1, ← untold (.inl admitted), opened])
    | true =>
      rw [lastTrip_of_trips admitted (by rw [opened]; rfl)]
      rw [admitted] at asks
      have passes : m.phase ≠ .opened := by
        intro shut
        cases asks.not_admitted shut
      by_cases mute : call.reply = .threwOther
      · rw [untold (.inr mute)] at opened
        exact absurd (congrArg _ opened) passes
      · have enters := (told admitted mute).enters_opened passes (by rw [opened]; rfl)
        rw [opened] at enters
        cases enters
        rfl

/-- Between two calls no trial is under way, and a half-open circuit has one left. -/
def Rests (o : BreakerOptions) : BreakerMemory → Prop
  | .halfOpen inFlight successes => inFlight = 0 ∧ successes < o.halfOpenCalls
  | _ => True

theorem rests_outstanding {o : BreakerOptions} {m : BreakerMemory} (rests : Rests o m) :
    m.outstanding = 0 := by
  cases m with
  | halfOpen => exact rests.1
  | _ => rfl

theorem rests_after_call {o : BreakerOptions} {m m' m'' : BreakerMemory} {asked told : Int}
    {call : Nat} {failed : Bool} (rests : Rests o m)
    (asks : CircuitMove o m (.acquire asked) true m')
    (tells : CircuitMove o m' (.report call failed told) false m'') : Rests o m'' := by
  cases asks with
  | passes => cases tells <;> trivial
  | tries =>
    cases tells with
    | reopens | closes => trivial
    | counts _ _ _ _ more => exact ⟨rfl, more⟩
  | admits =>
    obtain ⟨rfl, -⟩ := rests
    cases tells with
    | reopens | closes => trivial
    | counts _ _ _ _ more => exact ⟨rfl, more⟩

theorem rests_of_messages (trial : 0 < c.breaker.options.halfOpenCalls)
    (calm : c.breaker.memory.phase = .closed) (messages : Along (RaisesMessages c) log) :
    Rests c.breaker.options (c.after log).breaker.memory := by
  induction log with
  | nil =>
    change Rests _ c.breaker.memory
    cases here : c.breaker.memory with
    | closed => trivial
    | _ => rw [here] at calm; cases calm
  | cons call past ih =>
    obtain ⟨latest, earlier⟩ := along_cons.1 messages
    obtain ⟨m, asks, untold, told⟩ := after_moves trial past call
    cases admitted : (c.after past).admits call with
    | false =>
      rw [admitted] at asks
      rw [untold (.inl admitted), asks.of_refused.1]
      exact ih earlier
    | true =>
      rw [admitted] at asks
      exact rests_after_call (ih earlier) asks (told admitted (latest admitted))

/-- A circuit leaves the open state when the cool-down has passed, so a clock that never goes back
is past it ever after. -/
theorem cooled_of_clocked (trial : 0 < c.breaker.options.halfOpenCalls)
    (calm : c.breaker.memory.phase = .closed) (timely : ∀ call ∈ log, call.asked ≤ call.told)
    {trip : Int} (tripped : c.lastTrip? log = some trip)
    (passes : (c.after log).breaker.memory.phase ≠ .opened) :
    ∃ call ∈ log, trip + c.breaker.options.openCooldown ≤ call.told := by
  induction log with
  | nil => cases tripped
  | cons call past ih =>
    rw [lastTrip_of_passes passes] at tripped
    by_cases before : (c.after past).breaker.memory.phase = .opened
    · refine ⟨call, List.mem_cons_self, ?_⟩
      have prompt := timely call List.mem_cons_self
      obtain ⟨m, asks, untold, -⟩ := after_moves trial past call
      cases memory : (c.after past).breaker.memory with
      | opened since =>
        rw [lastTrip_of_opened trial calm memory] at tripped
        cases tripped
        rw [memory] at asks
        cases admitted : (c.after past).admits call with
        | false =>
          rw [admitted] at asks
          rw [untold (.inl admitted), asks.of_refused.1] at passes
          exact absurd rfl passes
        | true =>
          rw [admitted] at asks
          cases asks with
          | tries _ _ cool => omega
      | _ => rw [memory] at before; cases before
    · obtain ⟨earlier, among, cool⟩ :=
        ih (fun other among => timely other (List.mem_cons_of_mem _ among)) tripped before
      exact ⟨earlier, List.mem_cons_of_mem _ among, cool⟩

theorem asksAfterCooldown_of_clocked (trial : 0 < c.breaker.options.halfOpenCalls)
    (calm : c.breaker.memory.phase = .closed) (clock : Clocked log) :
    Along (AsksAfterCooldown c) log := by
  intro call past suffix passes trip tripped
  obtain ⟨order, timely⟩ := clock
  have latest := (List.pairwise_cons.1 (order.sublist suffix.sublist)).1
  obtain ⟨earlier, among, cool⟩ := cooled_of_clocked trial calm
    (fun other among => timely other (suffix.subset (List.mem_cons_of_mem _ among))) tripped passes
  have le := latest earlier among
  omega

theorem settles_of_rests (trial : 0 < c.breaker.options.halfOpenCalls)
    (calm : c.breaker.memory.phase = .closed)
    (rests : Rests c.breaker.options (c.after past).breaker.memory)
    (message : RaisesMessages c past call) (cool : AsksAfterCooldown c past call)
    (later : Rests c.breaker.options (c.after (call :: past)).breaker.memory) :
    Settles c past call := by
  obtain ⟨m, asks, untold, told⟩ := after_moves trial past call
  have hot_of_refused : (c.after past).admits call = false →
      ∃ since, (c.after past).breaker.memory = .opened since ∧
        call.asked < since + c.breaker.options.openCooldown := by
    intro refused
    rw [refused] at asks
    rcases asks.of_refused.2 with hot | ⟨inFlight, successes, memory, full⟩
    · exact hot
    · rw [memory] at rests
      obtain ⟨rfl, left⟩ := rests
      omega
  constructor
  case reports => exact fun admitted => perform_of_admitted admitted (message admitted)
  case refuses_quietly =>
    intro refused
    rw [refused] at asks
    exact Breaker.eq_of_parts (perform_options ..)
      ((untold (.inl refused)).trans asks.of_refused.1)
  case idle => exact rests_outstanding later
  case refused_iff =>
    constructor
    · intro refused
      obtain ⟨since, memory, hot⟩ := hot_of_refused refused
      exact ⟨since, lastTrip_of_opened trial calm memory, hot⟩
    · rintro ⟨trip, tripped, hot⟩
      by_cases shut : (c.after past).breaker.memory.phase = .opened
      · cases memory : (c.after past).breaker.memory with
        | opened since =>
          rw [lastTrip_of_opened trial calm memory] at tripped
          cases tripped
          rw [memory] at asks
          exact (asks.stays_opened (by rintro _ ⟨⟩; exact hot)).1
        | _ => rw [memory] at shut; cases shut
      · have passed := cool shut trip tripped
        omega
  case tries =>
    intro half
    refine eq_true_of_ne_false fun refused => ?_
    obtain ⟨since, memory, -⟩ := hot_of_refused refused
    rw [memory] at half
    cases half

/-- A call of which nothing was told did not settle. -/
theorem raisesMessages_of_settles (trial : 0 < c.breaker.options.halfOpenCalls)
    (settles : Settles c past call) : RaisesMessages c past call := by
  intro admitted mute
  have told := settles.reports admitted
  rw [after, perform_of_mute admitted mute, mute] at told
  rw [admits_eq] at admitted
  have passes := Breaker.admitted_phase _ (by rwa [after_options]) _ admitted
  exact Breaker.record_failure_ne _ _ passes told.symm

theorem asksAfterCooldown_of_settles (trial : 0 < c.breaker.options.halfOpenCalls)
    (settles : Settles c past call) : AsksAfterCooldown c past call := by
  intro passes trip tripped
  refine Int.not_lt.1 fun hot => ?_
  have refused := settles.refused_iff.2 ⟨trip, tripped, hot⟩
  obtain ⟨m, asks, -⟩ := after_moves trial past call
  rw [refused] at asks
  rcases asks.of_refused.2 with ⟨since, memory, -⟩ | ⟨inFlight, successes, memory, -⟩
  · rw [memory] at passes
    exact passes rfl
  · rw [settles.tries (by rw [memory]; rfl)] at refused
    cases refused

/-- A half-open circuit whose trials are all under way refuses every call. -/
theorem after_of_full {inFlight successes : Nat}
    (trial : 0 < c.breaker.options.halfOpenCalls)
    (full : c.breaker.options.halfOpenCalls ≤ inFlight + successes)
    (stuck : (c.after past).breaker.memory = .halfOpen inFlight successes)
    (later : List RemoteCall) :
    (c.after (later ++ past)).breaker.memory = .halfOpen inFlight successes ∧
      ∀ call, (c.after (later ++ past)).admits call = false := by
  have refuses : ∀ log, (c.after log).breaker.memory = .halfOpen inFlight successes →
      ∀ call, (c.after log).admits call = false ∧
        (c.after (call :: log)).breaker.memory = .halfOpen inFlight successes := by
    intro log memory call
    obtain ⟨m, asks, untold, -⟩ := after_moves trial log call
    rw [memory] at asks
    generalize admits : (c.after log).admits call = admitted at asks
    cases asks with
    | declines => exact ⟨rfl, untold (.inl admits)⟩
    | admits _ _ _ room => omega
  induction later with
  | nil => exact ⟨stuck, fun call => (refuses past stuck call).1⟩
  | cons call later ih =>
    have memory := (refuses _ ih.1 call).2
    exact ⟨memory, fun next => (refuses _ memory next).1⟩

end

end RemoteCaller

open RemoteCaller in
/-- Whatever the calls of one caller come to and whenever they ask: all of them settle exactly if
every one that is made and raises something raises a message, and none that asks once the circuit
has left the open state asks within the cool-down of the last trip. A clock that never goes back
sees to the second. -/
theorem every_call_settles_iff (target : String) (timeout : Int) (o : BreakerOptions)
    (log : List RemoteCall) :
    (Along (Settles (fresh target timeout o)) log ↔
      Along (RaisesMessages (fresh target timeout o)) log ∧
        Along (AsksAfterCooldown (fresh target timeout o)) log) ∧
    (Clocked log → Along (AsksAfterCooldown (fresh target timeout o)) log) := by
  have trial : 0 < (fresh target timeout o).breaker.options.halfOpenCalls :=
    show 0 < max 1 o.halfOpenCalls by omega
  refine ⟨⟨fun settles => ⟨?_, ?_⟩, ?_⟩, asksAfterCooldown_of_clocked trial rfl⟩
  · exact fun call past suffix => raisesMessages_of_settles trial (settles call past suffix)
  · exact fun call past suffix => asksAfterCooldown_of_settles trial (settles call past suffix)
  · rintro ⟨messages, cool⟩ call past suffix
    have along : Along (RaisesMessages (fresh target timeout o)) (call :: past) :=
      fun other before within => messages other before (within.trans suffix)
    exact settles_of_rests trial rfl (rests_of_messages trial rfl (along_cons.1 along).2)
      (along_cons.1 along).1 (cool call past suffix) (rests_of_messages trial rfl along)

/-- A breaker that opens on one failure, waits ten seconds and asks for one trial. -/
def Sample.strict : BreakerOptions :=
  { consecutiveFailures := 1, openCooldown := 10000, halfOpenCalls := 1 }

open RemoteCaller in
/-- A failure opens the circuit, a call within the cool-down is refused, the trial raises a message
and opens it again, and the next trial closes it. -/
theorem every_call_settles_iff_raised :
    let calls : List RemoteCall :=
      [⟨"Reserve", 21000, .status 0 "", 21005⟩, ⟨"Reserve", 10500, .threw "reset", 11000⟩,
        ⟨"Reserve", 10499, .status 0 "", 10499⟩, ⟨"Reserve", 0, .status 14 "down", 500⟩]
    Clocked calls ∧ Along (RaisesMessages (fresh "svc" 5000 Sample.strict)) calls ∧
      Along (Settles (fresh "svc" 5000 Sample.strict)) calls := by
  intro calls
  have clock : Clocked calls := by
    unfold Clocked
    decide
  have messages : Along (RaisesMessages (fresh "svc" 5000 Sample.strict)) calls := by
    simp only [calls, along_cons]
    refine ⟨nofun, nofun, nofun, nofun, ?_⟩
    intro call past suffix
    cases List.suffix_nil.1 suffix
  have settled := every_call_settles_iff "svc" 5000 Sample.strict calls
  exact ⟨clock, messages, settled.1.2 ⟨messages, settled.2 clock⟩⟩

open RemoteCaller in
/-- A trial that raises a value without a message does not settle: it stays under way, the circuit
stays half-open, and no call is let out any more, however long ago the last trip is. -/
theorem mute_raise_blocks_circuit :
    let stuck : List RemoteCall :=
      [⟨"Reserve", 10500, .threwOther, 11000⟩, ⟨"Reserve", 0, .status 14 "down", 500⟩]
    Clocked stuck ∧ ¬Along (Settles (fresh "svc" 5000 Sample.strict)) stuck ∧
      ((fresh "svc" 5000 Sample.strict).after stuck).breaker.memory = .halfOpen 1 0 ∧
      (fresh "svc" 5000 Sample.strict).lastTrip? stuck = some 500 ∧
      ∀ later call, ((fresh "svc" 5000 Sample.strict).after (later ++ stuck)).admits call =
        false := by
  intro stuck
  have memory : ((fresh "svc" 5000 Sample.strict).after stuck).breaker.memory = .halfOpen 1 0 :=
    rfl
  refine ⟨?_, ?_, memory, rfl, ?_⟩
  · unfold Clocked
    decide
  · intro settles
    exact raisesMessages_of_settles (show 0 < 1 by decide) (along_cons.1 settles).1 rfl rfl
  · exact fun later =>
      (after_of_full (show 0 < 1 by decide) (show 1 ≤ 1 + 0 by decide) memory later).2

end SagaEngine
