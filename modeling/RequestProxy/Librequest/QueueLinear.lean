import RequestProxy.Abstract.Linearizability
import RequestProxy.Librequest.QueueView

/-! The calls of the queue functions against the clock. A call takes effect when
it ends its critical section, so the queue is linearizable as a closable FIFO
store. -/

namespace RequestProxy.Librequest

open RequestProxy.Abstract

universe u

variable {Tid α : Type u}

/-- The threads with a clock that counts their steps. `began` has the time and
the operation of the last call of each thread, `moments` the times at which
critical sections ended, `calls` the calls that have returned and `places` their
tickets. -/
structure Timed (Tid α : Type u) where
  threads : Threads Tid α
  clock : Nat
  began : Tid → Nat × Op α
  moments : List Nat
  calls : List (Call (Op α) (Returned α))
  places : List Nat

namespace Timed

def init : Timed Tid α where
  threads := Threads.init
  clock := 0
  began := fun _ => (0, .dequeue)
  moments := []
  calls := []
  places := []

variable [DecidableEq Tid]

/-- The calls that a step ends, with their tickets. -/
def ended (timed : Timed Tid α) (next : Threads Tid α) :
    Threads.Label Tid α → List (Nat × Call (Op α) (Returned α))
  | .leave thread =>
    (next.returned.drop timed.threads.returned.length).map fun entry =>
      (entry.1, ⟨(timed.began thread).1, timed.clock, (timed.began thread).2, entry.2⟩)
  | _ => []

/-- The clock ticks, and the lists are brought up to date with the step. -/
def advance (timed : Timed Tid α) (label : Threads.Label Tid α) (next : Threads Tid α) :
    Timed Tid α where
  threads := next
  clock := timed.clock + 1
  began := match label with
    | .call thread op _ => Function.update timed.began thread (timed.clock, op)
    | _ => timed.began
  moments :=
    if timed.threads.history.length < next.history.length then timed.moments ++ [timed.clock]
    else timed.moments
  calls := timed.calls ++ (timed.ended next label).map Prod.snd
  places := timed.places ++ (timed.ended next label).map Prod.fst

def step (timed : Timed Tid α) (label : Threads.Label Tid α) : Option (Timed Tid α) :=
  (timed.threads.step label).map (timed.advance label)

private theorem step_eq {timed next : Timed Tid α} (taken : timed.step label = some next) :
    timed.threads.step label = some next.threads ∧ next = timed.advance label next.threads := by
  obtain ⟨threads, moved, rfl⟩ := Option.map_eq_some_iff.mp taken
  exact ⟨moved, rfl⟩

end Timed

namespace Threads

variable [DecidableEq Tid] {threads next : Threads Tid α}

/-- What a step does to the call that its thread is in. -/
inductive Turn (threads next : Threads Tid α) : Label Tid α → Prop where
  | begins (idle : threads.place thread = .outside) (asks : body.op = op)
      (place : next.place = Function.update threads.place thread (.locking body))
      (history : next.history = threads.history) (returned : next.returned = threads.returned) :
      Turn threads next (.call thread op node)
  | moves (place : next.place = Function.update threads.place thread after)
      (asks : after.asks = (threads.place thread).asks)
      (carries : after.carries = (threads.place thread).carries)
      (history : next.history = threads.history) (returned : next.returned = threads.returned)
      (other : ∀ thread op node, label ≠ .call thread op node) :
      Turn threads next label
  | takes (asks : (threads.place thread).asks = some op)
      (place : next.place =
        Function.update threads.place thread (.unlocking threads.history.length locals))
      (history : next.history = threads.history ++ [op]) (returned : next.returned = threads.returned) :
      Turn threads next (.critical thread chosen)
  | ends (carries : (threads.place thread).carries = some (ticket, locals))
      (place : next.place = Function.update threads.place thread .outside)
      (history : next.history = threads.history)
      (returned : next.returned = threads.returned ++ [(ticket, value)]) :
      Turn threads next (.leave thread)

theorem turn (valid : Discipline threads) (waits : ∀ {thread body},
      threads.place thread = .inside body → criticalSection threads.queue body = some .wait →
        body = .dequeue)
    (taken : step threads label = some next) : Turn threads next label := by
  cases took taken with
  | call idle began => exact .begins idle (prologue_op began) rfl rfl rfl
  | lock free ready => exact .moves rfl (by rw [ready]; rfl) (by rw [ready]; rfl) rfl rfl (by simp)
  | @wait thread body chosen ready ran =>
    cases waits ready ran
    exact .moves rfl (by rw [ready]; rfl) (by rw [ready]; rfl) rfl rfl (by simp)
  | finish ready finished moves => exact .takes (by rw [ready]; rfl) rfl rfl rfl
  | unlock ready => exact .moves rfl (by rw [ready]; rfl) (by rw [ready]; rfl) rfl rfl (by simp)
  | leave ready ended => exact .ends (by rw [ready]; rfl) rfl rfl rfl
  | @relock thread free called =>
    have waiting := (valid.waiting thread).mp (.inr called)
    exact .moves rfl (by rw [waiting]; rfl) (by rw [waiting]; rfl) rfl rfl (by simp)
  | @spurious thread _ =>
    exact .moves (Function.update_eq_self thread _).symm rfl rfl rfl rfl (by simp)

end Threads

namespace Timed

/-- What is known of the call that a thread is in: it began before now, and if
it has left its critical section it did so after that. -/
structure OnTime (timed : Timed Tid α) (thread : Tid) (place : Place α) : Prop where
  asked : ∀ {op}, place.asks = some op →
    (timed.began thread).2 = op ∧ (timed.began thread).1 < timed.clock
  carried : ∀ {ticket locals}, place.carries = some (ticket, locals) →
    ticket ∉ timed.places ∧ ∃ moment, timed.moments[ticket]? = some moment ∧
      timed.threads.history[ticket]? = some (timed.began thread).2 ∧
      (timed.began thread).1 < moment

/-- The call took effect with the critical section of the ticket. -/
def Placed (timed : Timed Tid α) (call : Call (Op α) (Returned α)) (ticket : Nat) : Prop :=
  ∃ moment, timed.moments[ticket]? = some moment ∧
    timed.threads.history[ticket]? = some call.op ∧
    (ticket, call.answer) ∈ timed.threads.returned ∧ call.start < moment ∧ moment < call.finish

structure Timely (timed : Timed Tid α) : Prop where
  counted : timed.moments.length = timed.threads.history.length
  ordered : timed.moments.Pairwise (· < ·)
  past : ∀ moment ∈ timed.moments, moment < timed.clock
  onTime : ∀ thread, timed.OnTime thread (timed.threads.place thread)
  sole : ∀ {thread other ticket locals carried},
    (timed.threads.place thread).carries = some (ticket, locals) →
    (timed.threads.place other).carries = some (ticket, carried) → thread = other
  distinct : timed.places.Nodup
  covered : ∀ ticket < timed.moments.length, ticket ∈ timed.places ∨
    ∃ thread locals, (timed.threads.place thread).carries = some (ticket, locals)
  placed : List.Forall₂ timed.Placed timed.calls timed.places
  recorded : timed.threads.returned = timed.places.zip (timed.calls.map Call.answer)

private theorem timely_init : (init : Timed Tid α).Timely where
  counted := rfl
  ordered := .nil
  past := by simp [init]
  onTime := fun thread => ⟨by simp [init, Threads.init, Place.asks],
    by simp [init, Threads.init, Place.carries]⟩
  sole := by simp [init, Threads.init, Place.carries]
  distinct := .nil
  covered := by simp [init]
  placed := .nil
  recorded := rfl

variable {timed next : Timed Tid α}

private theorem found_later {β : Type u} {entries more : List β} {index : Nat} {entry : β}
    (grown : entries <+: more) (found : entries[index]? = some entry) :
    more[index]? = some entry := by
  obtain ⟨inside, rfl⟩ := List.getElem?_eq_some_iff.mp found
  exact List.prefix_iff_getElem?.mp grown index inside

structure Later (timed next : Timed Tid α) : Prop where
  clock : timed.clock ≤ next.clock
  moments : timed.moments <+: next.moments
  history : timed.threads.history <+: next.threads.history
  returned : timed.threads.returned <+: next.threads.returned

theorem Later.placed (later : Later timed next) (placed : timed.Placed call ticket) :
    next.Placed call ticket := by
  obtain ⟨moment, at_moment, at_op, answered, started, finished⟩ := placed
  exact ⟨moment, found_later later.moments at_moment, found_later later.history at_op,
    later.returned.subset answered, started, finished⟩

private theorem Later.onTime (later : Later timed next) {place : Place α}
    (began : next.began thread = timed.began thread)
    (places : ∀ ticket locals, place.carries = some (ticket, locals) → ticket ∈ next.places →
      ticket ∈ timed.places)
    (onTime : timed.OnTime thread place) : next.OnTime thread place where
  asked := by
    intro op asks
    obtain ⟨same, before⟩ := onTime.asked asks
    rw [began]
    exact ⟨same, Nat.lt_of_lt_of_le before later.clock⟩
  carried := by
    intro ticket locals carries
    obtain ⟨fresh, moment, at_moment, at_op, started⟩ := onTime.carried carries
    refine ⟨fun member => fresh (places ticket locals carries member), moment,
      found_later later.moments at_moment, ?_, ?_⟩
    · rw [began]
      exact found_later later.history at_op
    · rw [began]
      exact started

variable [DecidableEq Tid]

omit [DecidableEq Tid] in
private theorem ended_nil {threads : Threads Tid α}
    (returned : threads.returned = timed.threads.returned) :
    timed.ended threads label = [] := by
  cases label with
  | leave thread => simp [ended, returned]
  | call _ _ _ | lock _ | critical _ _ | unlock _ | relock _ | spurious _ => rfl

private theorem later_advance {threads : Threads Tid α}
    (history : timed.threads.history <+: threads.history)
    (returned : timed.threads.returned <+: threads.returned) :
    Later timed (timed.advance label threads) where
  clock := Nat.le_succ _
  moments := by
    simp only [advance]
    split
    · exact List.prefix_append _ _
    · exact List.prefix_refl _
  history := history
  returned := returned

private theorem began_advance {threads : Threads Tid α}
    (other : ∀ op node, label ≠ .call thread op node) :
    (timed.advance label threads).began thread = timed.began thread := by
  cases label with
  | call caller op node =>
    have different : thread ≠ caller := by
      rintro rfl
      exact other op node rfl
    simp [advance, different]
  | lock _ | critical _ _ | unlock _ | leave _ | relock _ | spurious _ => rfl

/-- Moving one thread keeps tickets apart when no other thread has its ticket. -/
theorem Timely.sole_moved (timely : timed.Timely) {place : Place α}
    (own : ∀ {ticket locals}, place.carries = some (ticket, locals) → ∀ {other carried},
      other ≠ thread → (timed.threads.place other).carries ≠ some (ticket, carried))
    {first second : Tid} {ticket : Nat} {locals carried : Locals}
    (one : (Function.update timed.threads.place thread place first).carries = some (ticket, locals))
    (two : (Function.update timed.threads.place thread place second).carries =
      some (ticket, carried)) : first = second := by
  by_cases sameFirst : first = thread <;> by_cases sameSecond : second = thread
  · rw [sameFirst, sameSecond]
  · subst sameFirst
    rw [Function.update_self] at one
    rw [Function.update_of_ne sameSecond] at two
    exact (own one sameSecond two).elim
  · subst sameSecond
    rw [Function.update_of_ne sameFirst] at one
    rw [Function.update_self] at two
    exact (own two sameFirst one).elim
  · rw [Function.update_of_ne sameFirst] at one
    rw [Function.update_of_ne sameSecond] at two
    exact timely.sole one two

/-- Every ticket stays accounted for when the thread that moves keeps its own. -/
theorem Timely.covered_moved (timely : timed.Timely) {place : Place α} {places : List Nat}
    (grown : ∀ ticket ∈ timed.places, ticket ∈ places)
    (own : ∀ {ticket locals}, (timed.threads.place thread).carries = some (ticket, locals) →
      ticket ∈ places ∨ place.carries = some (ticket, locals))
    {ticket : Nat} (known : ticket < timed.moments.length) : ticket ∈ places ∨ ∃ other locals,
      (Function.update timed.threads.place thread place other).carries = some (ticket, locals) := by
  rcases timely.covered ticket known with placed | ⟨other, locals, carries⟩
  · exact .inl (grown ticket placed)
  · by_cases same : other = thread
    · subst same
      refine (own carries).imp_right fun kept => ⟨other, locals, ?_⟩
      rwa [Function.update_self]
    · refine .inr ⟨other, locals, ?_⟩
      rwa [Function.update_of_ne same]

/-- The threads that do not move are on time after the step, and the one that
moves has to be checked. -/
theorem Timely.onTime_moved (timely : timed.Timely) {threads : Threads Tid α} {place : Place α}
    (later : Later timed (timed.advance label threads))
    (moved : threads.place = Function.update timed.threads.place thread place)
    (calls : ∀ other op node, label = .call other op node → other = thread)
    (places : ∀ {other ticket locals}, other ≠ thread →
      (timed.threads.place other).carries = some (ticket, locals) →
      ticket ∈ (timed.advance label threads).places → ticket ∈ timed.places)
    (own : (timed.advance label threads).OnTime thread place) (other : Tid) :
    (timed.advance label threads).OnTime other (threads.place other) := by
  rw [moved]
  by_cases same : other = thread
  · subst same
    rwa [Function.update_self]
  · rw [Function.update_of_ne same]
    refine later.onTime (began_advance ?_) (fun _ _ => places same) (timely.onTime other)
    intro op node called
    exact same (calls other op node called)

theorem Timely.move (timely : timed.Timely) {threads : Threads Tid α} {place : Place α}
    (history : threads.history = timed.threads.history)
    (returned : threads.returned = timed.threads.returned)
    (moved : threads.place = Function.update timed.threads.place thread place)
    (calls : ∀ other op node, label = .call other op node → other = thread)
    (own : (timed.advance label threads).OnTime thread place)
    (carries : place.carries = (timed.threads.place thread).carries) :
    (timed.advance label threads).Timely := by
  have later : Later timed (timed.advance label threads) :=
    later_advance (history ▸ List.prefix_refl _) (returned ▸ List.prefix_refl _)
  have moments : (timed.advance label threads).moments = timed.moments := by
    simp [advance, history]
  have same : (timed.advance label threads).calls = timed.calls := by
    simp [advance, ended_nil returned]
  have places : (timed.advance label threads).places = timed.places := by
    simp [advance, ended_nil returned]
  refine ⟨?_, moments ▸ timely.ordered, ?_, ?_, ?_, places ▸ timely.distinct, ?_, ?_, ?_⟩
  · rw [moments, timely.counted]
    exact congrArg List.length history.symm
  · intro moment member
    exact Nat.lt_succ_of_lt (timely.past moment (moments ▸ member))
  · exact timely.onTime_moved later moved calls (fun _ _ member => places ▸ member) own
  · intro first second ticket locals carried one two
    refine timely.sole_moved ?_ (moved ▸ one) (moved ▸ two)
    intro index _ held other _ different found
    exact different (timely.sole found (carries ▸ held))
  · intro ticket known
    rw [places]
    exact moved ▸ timely.covered_moved (fun _ member => member)
      (fun held => .inr (carries ▸ held)) (moments ▸ known)
  · rw [same, places]
    exact timely.placed.imp fun _ _ => later.placed
  · rw [same, places]
    exact returned.trans timely.recorded

private theorem Timely.takes (timely : timed.Timely) {threads : Threads Tid α}
    (asks : (timed.threads.place thread).asks = some op)
    (moved : threads.place = Function.update timed.threads.place thread
      (.unlocking timed.threads.history.length locals))
    (history : threads.history = timed.threads.history ++ [op])
    (returned : threads.returned = timed.threads.returned) :
    (timed.advance (.critical thread chosen) threads).Timely := by
  obtain ⟨same, started⟩ := (timely.onTime thread).asked asks
  have later : Later timed (timed.advance (.critical thread chosen) threads) :=
    later_advance (history ▸ List.prefix_append _ _) (returned ▸ List.prefix_refl _)
  have moments : (timed.advance (.critical thread chosen) threads).moments =
      timed.moments ++ [timed.clock] := by
    simp [advance, history]
  have fresh : ∀ {other ticket carried},
      (timed.threads.place other).carries = some (ticket, carried) →
      ticket < timed.threads.history.length := by
    intro other ticket carried found
    obtain ⟨_, moment, at_moment, _⟩ := (timely.onTime other).carried found
    exact timely.counted ▸ (List.getElem?_eq_some_iff.mp at_moment).1
  have known : ∀ ticket ∈ timed.places, ticket < timed.threads.history.length := by
    intro ticket member
    obtain ⟨index, inside, rfl⟩ := List.getElem_of_mem member
    obtain ⟨moment, at_moment, _⟩ :=
      timely.placed.get (timely.placed.length_eq ▸ inside) inside
    exact timely.counted ▸ (List.getElem?_eq_some_iff.mp at_moment).1
  have places : (timed.advance (.critical thread chosen) threads).places = timed.places := by
    simp [advance, ended_nil returned]
  have calls : (timed.advance (.critical thread chosen) threads).calls = timed.calls := by
    simp [advance, ended_nil returned]
  refine ⟨?_, ?_, ?_, ?_, ?_, places ▸ timely.distinct, ?_, ?_, ?_⟩
  · rw [moments, List.length_append, timely.counted]
    simp [advance, history]
  · rw [moments, List.pairwise_append]
    refine ⟨timely.ordered, List.pairwise_singleton _ _, ?_⟩
    intro earlier member now last
    rw [List.mem_singleton.mp last]
    exact timely.past earlier member
  · intro moment member
    rw [moments] at member
    rcases List.mem_append.mp member with before | last
    · exact Nat.lt_succ_of_lt (timely.past moment before)
    · rw [List.mem_singleton.mp last]
      exact Nat.lt_succ_self _
  · refine timely.onTime_moved later moved (by simp) (fun _ _ member => places ▸ member)
      ⟨by simp [Place.asks], ?_⟩
    rintro ticket carried ⟨⟩
    refine ⟨?_, timed.clock, ?_, ?_, started⟩
    · intro member
      exact Nat.lt_irrefl _ (known _ (places ▸ member))
    · rw [moments, ← timely.counted]
      simp
    · simp [advance, history, same]
  · intro first second ticket _ _ one two
    refine timely.sole_moved ?_ (moved ▸ one) (moved ▸ two)
    rintro _ _ ⟨⟩ other _ _ found
    exact Nat.lt_irrefl _ (fresh found)
  · intro ticket bound
    rw [moments, List.length_append, List.length_singleton] at bound
    rcases Nat.lt_succ_iff_lt_or_eq.mp bound with old | new
    · rw [places]
      refine moved ▸ timely.covered_moved (fun _ member => member) ?_ old
      intro index carried held
      exact (none_of_asks asks held).elim
    · refine .inr ⟨thread, locals, ?_⟩
      rw [new, timely.counted]
      exact moved ▸ by simp [Place.carries]
  · rw [calls, places]
    exact timely.placed.imp fun _ _ => later.placed
  · rw [calls, places]
    exact returned.trans timely.recorded

theorem Timely.ends (timely : timed.Timely) {threads : Threads Tid α}
    (carries : (timed.threads.place thread).carries = some (ticket, locals))
    (moved : threads.place = Function.update timed.threads.place thread .outside)
    (history : threads.history = timed.threads.history)
    (returned : threads.returned = timed.threads.returned ++ [(ticket, value)]) :
    (timed.advance (.leave thread) threads).Timely := by
  obtain ⟨fresh, moment, at_moment, at_op, started⟩ := (timely.onTime thread).carried carries
  have later : Later timed (timed.advance (.leave thread) threads) :=
    later_advance (history ▸ List.prefix_refl _) (returned ▸ List.prefix_append _ _)
  have moments : (timed.advance (.leave thread) threads).moments = timed.moments := by
    simp [advance, history]
  have calls : (timed.advance (.leave thread) threads).calls = timed.calls ++
      [⟨(timed.began thread).1, timed.clock, (timed.began thread).2, value⟩] := by
    simp [advance, ended, returned]
  have places : (timed.advance (.leave thread) threads).places = timed.places ++ [ticket] := by
    simp [advance, ended, returned]
  refine ⟨?_, moments ▸ timely.ordered, ?_, ?_, ?_, ?_, ?_, ?_, ?_⟩
  · rw [moments, timely.counted]
    exact congrArg List.length history.symm
  · intro moment member
    exact Nat.lt_succ_of_lt (timely.past moment (moments ▸ member))
  · refine timely.onTime_moved later moved (by simp) ?_
      ⟨by simp [Place.asks], by simp [Place.carries]⟩
    intro other index carried different found member
    rw [places] at member
    rcases List.mem_append.mp member with before | last
    · exact before
    · rw [List.mem_singleton.mp last] at found
      exact (different (timely.sole found carries)).elim
  · intro first second index _ _ one two
    exact timely.sole_moved (by simp [Place.carries]) (moved ▸ one) (moved ▸ two)
  · rw [places]
    rw [← List.concat_eq_append]
    exact timely.distinct.concat fresh
  · intro index bound
    rw [places]
    refine moved ▸ timely.covered_moved (fun _ member => List.mem_append_left _ member) ?_
      (moments ▸ bound)
    intro held carried found
    cases found.symm.trans carries
    exact .inl (List.mem_append_right _ (List.mem_singleton_self _))
  · rw [calls, places]
    refine List.rel_append (timely.placed.imp fun _ _ => later.placed) (.cons ?_ .nil)
    refine ⟨moment, moments ▸ at_moment, history ▸ at_op, ?_, started, ?_⟩
    · simp [advance, returned]
    · exact timely.past moment (List.mem_of_getElem? at_moment)
  · rw [calls, places, List.map_append, List.zip_append, ← timely.recorded]
    · exact returned
    · rw [List.length_map, timely.placed.length_eq]

theorem Timely.step (timely : timed.Timely) {threads : Threads Tid α}
    (turn : Threads.Turn timed.threads threads label) : (timed.advance label threads).Timely := by
  cases turn with
  | @begins thread body op node idle asks place history returned =>
    refine timely.move history returned place ?_ ⟨?_, ?_⟩ ?_
    · rintro other _ _ ⟨⟩
      rfl
    · intro asked same
      cases same
      simp [advance, asks]
    · simp [Place.carries]
    · rw [idle]
      rfl
  | @moves thread after label place asks carries history returned other =>
    have later : Later timed (timed.advance label threads) :=
      later_advance (history ▸ List.prefix_refl _) (returned ▸ List.prefix_refl _)
    have kept := later.onTime (began_advance (other thread))
      (fun ticket locals _ member => by simpa [advance, ended_nil returned] using member)
      (timely.onTime thread)
    refine timely.move history returned place ?_ ⟨?_, ?_⟩ carries
    · intro caller op node called
      exact (other caller op node called).elim
    · intro op asked
      exact kept.asked (asks ▸ asked)
    · intro ticket locals carried
      exact kept.carried (carries ▸ carried)
  | takes asks place history returned => exact timely.takes asks place history returned
  | ends carries place history returned => exact timely.ends carries place history returned

/-- The threads are sound and the clock agrees with what they did. -/
theorem timely_invariant : Transition.Invariant step (fun _ => True) (init : Timed Tid α)
    fun timed => timed.threads.Sound ∧ timed.Timely := by
  refine (Threads.sound_invariant.pullback Timed.threads init
    fun taken => (step_eq taken).1).and timely_init ?_
  rintro timed label next ⟨valid, path, items, results, owned⟩ timely _ taken
  obtain ⟨moved, advanced⟩ := step_eq taken
  rw [advanced]
  refine timely.step (Threads.turn valid ?_ moved)
  intro thread body ready waits
  exact (owned.waits_dequeue ready waits).1

/-- What a closable FIFO store may answer to one caller. -/
def FifoAnswers (ops : List (Op α)) (results : List (Result α)) : Prop :=
  ∃ last, Fifo.empty.replay ops = some (last, results)

/-- The point is of the call that a thread is in: the thread has left the
critical section with the ticket and is about to return the answer. -/
def Pending (timed : Timed Tid α) (ticket : Nat) (point : Point (Op α) (Result α)) : Prop :=
  ∃ thread locals value, (timed.threads.place thread).carries = some (ticket, locals) ∧
    answer timed.threads.queue locals = some value ∧ value.Agrees point.result ∧
    (timed.began thread).2 = point.op ∧ (timed.began thread).1 < point.moment

omit [DecidableEq Tid] in
theorem Timely.linearizes (timely : timed.Timely)
    (owned : timed.threads.Ownership path items results) :
    Linearizes FifoAnswers Returned.Agrees timed.Pending timed.calls
      (pointsOf timed.moments timed.threads.history results) timed.places := by
  refine linearizes_points timely.counted (Fifo.replay_length owned.replayed)
    ⟨_, owned.replayed⟩ timely.ordered timely.distinct (timely.placed.imp ?_) ?_
  · rintro call place ⟨moment, at_moment, at_op, answered, started, finished⟩
    obtain ⟨result, at_result, agrees⟩ := owned.answers answered
    exact ⟨moment, result, at_moment, at_op, at_result, agrees, started, finished⟩
  · intro ticket moment op result at_moment at_op at_result
    refine (timely.covered ticket (List.getElem?_eq_some_iff.mp at_moment).1).imp_right ?_
    rintro ⟨thread, locals, carries⟩
    obtain ⟨_, same, found, asked, started⟩ := (timely.onTime thread).carried carries
    cases at_moment.symm.trans found
    obtain ⟨value, given, answered, there, agrees⟩ := owned.tickets carries
    cases at_result.symm.trans there
    exact ⟨thread, locals, value, carries, answered, agrees,
      Option.some.inj (asked.symm.trans at_op), started⟩

/-- The queue is linearizable: in every run, each call that has returned takes
effect at one moment while it runs, and the effects in order are a run of a
closable FIFO store that gives the answers of the calls. -/
theorem queue_linearizable {labels : List (Threads.Label Tid α)} {timed : Timed Tid α}
    (ran : Transition.run step init labels = some timed) :
    timed.threads.returned = timed.places.zip (timed.calls.map Call.answer) ∧
    ∃ results, Linearizes FifoAnswers Returned.Agrees timed.Pending timed.calls
      (pointsOf timed.moments timed.threads.history results) timed.places := by
  obtain ⟨⟨valid, path, items, results, owned⟩, timely⟩ :=
    timely_invariant.run (fun _ _ => trivial) ran
  exact ⟨timely.recorded, results, timely.linearizes owned⟩

/-- A producer and a consumer that overlap, and a late closer. -/
def sampleRun : List (Threads.Label Nat Nat) :=
  [.call 0 (.enqueue 7) 40, .call 1 .dequeue 0, .lock 1, .critical 1 ∅, .lock 0,
    .critical 0 {1}, .unlock 0, .relock 1, .critical 1 ∅, .unlock 1, .leave 1, .leave 0,
    .call 2 .close 0, .lock 2, .critical 2 ∅, .unlock 2, .leave 2]

theorem queue_linearizable_sample :
    ∃ timed : Timed Nat Nat, Transition.run step init sampleRun = some timed ∧
      timed.moments = [5, 8, 14] ∧ timed.places = [1, 0, 2] ∧
      timed.threads.returned = timed.places.zip (timed.calls.map Call.answer) ∧
      ∃ results, Linearizes FifoAnswers Returned.Agrees timed.Pending timed.calls
        (pointsOf timed.moments timed.threads.history results) timed.places := by
  refine ⟨_, rfl, rfl, rfl, ?_⟩
  have explained {timed : Timed Nat Nat}
      (ran : Transition.run step init sampleRun = some timed) := queue_linearizable ran
  exact explained rfl

end Timed

end RequestProxy.Librequest
