import Dthread.AppThreads

/-!
What becomes of a thread and of its return value during one use of a slot of
the shared table. The thread gets a local slot, its code runs and leaves a
value behind, its rank reports the end, and rank 0 hands the value to a joiner
or frees it. Everything that happens on the way is kept beside the thread, and
the invariant says how the value, the final state and these records agree.
-/
namespace Dthread.ThreadFates

open ReqMsg AppThreads

/-- Where a thread stands. `done` is the main thread after it has returned, and
`lost` a thread whose report was dropped because its rank was draining. -/
inductive Stage where
  | waiting
  | hosted (pc : WrapPc) (state : LtState)
  | ended (fin : LtState)
  | done
  | reported (fin : LtState)
  | lost
  | zombie (fin : LtState)
  | closed
deriving DecidableEq, Repr

/-- What is recorded about a thread: how often it got a local slot, the return
values it produced, the final states its rank has sent, the reports that were
dropped, and the values delivered by a successful JOINED or passed to FREE. -/
@[ext] structure News where
  started : ℕ
  values : List Argret
  finals : List LtState
  dropped : ℕ
  joined : List Argret
  freed : List Argret
deriving DecidableEq, Repr

def News.none : News := ⟨0, [], [], 0, [], []⟩

def News.add (a b : News) : News where
  started := a.started + b.started
  values := a.values ++ b.values
  finals := a.finals ++ b.finals
  dropped := a.dropped + b.dropped
  joined := a.joined ++ b.joined
  freed := a.freed ++ b.freed

@[simp] theorem News.add_none (a : News) : a.add .none = a := by
  ext1 <;> simp [News.add, News.none]

structure Fate where
  stage : Stage
  ret : Argret
  detached : Bool
  dispIdx : ℕ
  past : News

def Fate.go (f : Fate) (stage : Stage) (ret : Argret) (news : News) : Fate :=
  { f with stage := stage, ret := ret, past := f.past.add news }

def isNative (job : Job) (f : Fate) : Bool := native (job.dsps f.dispIdx)

/-- The dispatch entries whose values detached_ret_cleanup frees. -/
def frees (job : Job) (dispIdx : ℕ) : Bool :=
  decide (1 ≤ dispIdx ∧ dispIdx < job.ndsps) && (job.dsps dispIdx).dtRetproc

/-- A thread that calls an exit function leaves the value it was given or
that was encoded, or a value without data. -/
def Exited (native : Bool) (ret : Argret) (values : List Argret) : Prop :=
  values = [ret] ∨ values = [] ∧ (ret.dtArgretType = DTHREAD_NODATA ∨
    native = false ∧ ret.dtArgretType = DTHREAD_CANCELED)

/-- How a step can lose the return value of a thread. -/
inductive Loss where
  | none
  | overwrite
  | abandon
  | discard
deriving DecidableEq, Repr

inductive FateStep (job : Job) (f : Fate) : News → Loss → Fate → Prop
  | still : FateStep job f .none .none f
  | detach (hzombie : ∀ fin, f.stage ≠ .zombie fin) (hclosed : f.stage ≠ .closed) :
      FateStep job f .none .none { f with detached := true }
  | abandon (fin : LtState) (h : f.stage = .zombie fin) :
      FateStep job f .none .abandon { f with detached := true }
  | host (h : f.stage = .waiting) :
      FateStep job f { News.none with started := 1 } .none
        (f.go (.hosted .starting .starting) f.ret { News.none with started := 1 })
  | fail (h : f.stage = .waiting) : FateStep job f .none .none (f.go .closed f.ret .none)
  | publish (state : LtState) (h : f.stage = .hosted .starting state) :
      FateStep job f .none .none (f.go (.hosted .app .running) f.ret .none)
  | cancel (pc : WrapPc) (h : f.stage = .hosted pc .running) :
      FateStep job f .none .none (f.go (.hosted pc .canceled) f.ret .none)
  | exit (state : LtState) (ret : Argret) (values : List Argret)
      (h : f.stage = .hosted .app state) (hret : Exited (isNative job f) ret values) :
      FateStep job f { News.none with values := values } .none
        (f.go (.hosted .exiting state) ret { News.none with values := values })
  | exited (state : LtState) (h : f.stage = .hosted .exiting state) :
      FateStep job f .none .none (f.go (.hosted (.cleanup false) .exited) f.ret .none)
  | appReturn (state : LtState) (ret : Argret) (h : f.stage = .hosted .app state)
      (hdisp : f.dispIdx ≠ 0) (hnative : isNative job f = true) :
      FateStep job f { News.none with values := [ret] } .none
        (f.go (.hosted (.cleanup true) state) ret { News.none with values := [ret] })
  | appReturnPth (state : LtState) (h : f.stage = .hosted .app state) (hdisp : f.dispIdx ≠ 0)
      (hnative : isNative job f = false) :
      FateStep job f .none .none (f.go (.hosted (.cleanup true) state) f.ret .none)
  | tearDown (state : LtState) (h : f.stage = .hosted .app state) :
      FateStep job f .none .none (f.go (.hosted (.cleanup false) state) f.ret .none)
  | wrapFail (state : LtState) (h : f.stage = .hosted .starting state) :
      FateStep job f .none .none (f.go (.ended (sealState state .canceled))
        (stamp (sealState state .canceled) f.ret) .none)
  | cleanup (state : LtState) (h : f.stage = .hosted (.cleanup false) state) :
      FateStep job f .none .none (f.go (.ended (sealState state .cleanup))
        (stamp (sealState state .cleanup) f.ret) .none)
  | returned (state : LtState) (h : f.stage = .hosted (.cleanup true) state)
      (hnative : isNative job f = true) :
      FateStep job f .none .none (f.go (.ended (sealState state .returned))
        (stamp (sealState state .returned) f.ret) .none)
  | encode (state : LtState) (ret : Argret) (h : f.stage = .hosted (.cleanup true) state)
      (hnative : isNative job f = false) :
      FateStep job f { News.none with values := [ret] }
        (if state = .canceled then .overwrite else .none)
        (f.go (.ended (sealState state .returned)) (stamp (sealState state .returned) ret)
          { News.none with values := [ret] })
  | encodeFail (state : LtState) (h : f.stage = .hosted (.cleanup true) state)
      (hnative : isNative job f = false) :
      FateStep job f .none .none (f.go (.ended (sealState state .canceled))
        (stamp (sealState state .canceled) { f.ret with dtArgretType := DTHREAD_CANCELED }) .none)
  | app0Return (state : LtState) (h : f.stage = .hosted .app state) (hdisp : f.dispIdx = 0) :
      FateStep job f .none .none (f.go .done f.ret .none)
  | report (fin : LtState) (h : f.stage = .ended fin) :
      FateStep job f { News.none with finals := [fin] } .none
        (f.go (.reported fin) f.ret { News.none with finals := [fin] })
  | drop (fin : LtState) (h : f.stage = .ended fin) :
      FateStep job f { News.none with dropped := 1 } .none
        (f.go .lost f.ret { News.none with dropped := 1 })
  | terminate (fin : LtState) (h : f.stage = .reported fin) (hdet : f.detached = false) :
      FateStep job f .none .none (f.go (.zombie fin) f.ret .none)
  | free (fin : LtState) (h : f.stage = .reported fin) (hdet : f.detached = true) :
      FateStep job f { News.none with freed := if frees job f.dispIdx then [f.ret] else [] }
        (if frees job f.dispIdx then .none else .discard)
        (f.go .closed f.ret
          { News.none with freed := if frees job f.dispIdx then [f.ret] else [] })
  | join (fin : LtState) (h : f.stage = .reported fin ∨ f.stage = .zombie fin)
      (hdet : f.detached = false) :
      FateStep job f { News.none with joined := [f.ret] } .none
        (f.go .closed f.ret { News.none with joined := [f.ret] })
  | silence (fin : LtState) (h : f.stage = .reported fin ∨ f.stage = .zombie fin)
      (hdet : f.detached = false) :
      FateStep job f .none .discard (f.go .closed f.ret .none)

theorem FateStep.past {job : Job} {f f' : Fate} {news : News} {loss : Loss}
    (hs : FateStep job f news loss f') : f'.past = f.past.add news := by
  cases hs with
  | still => exact (News.add_none _).symm
  | detach => exact (News.add_none _).symm
  | abandon => exact (News.add_none _).symm
  | _ => rfl

theorem FateStep.dispIdx {job : Job} {f f' : Fate} {news : News} {loss : Loss}
    (hs : FateStep job f news loss f') : f'.dispIdx = f.dispIdx := by
  cases hs <;> rfl

/-- A final state agrees with the value that a joiner receives and with the
values the thread has produced. -/
structure Agrees (native : Bool) (fin : LtState) (ret : Argret) (values : List Argret) :
    Prop where
  final : fin.needFinalstate = false
  canceled : fin = .canceled ∨ fin = .cleanup → ret.dtArgretType = DTHREAD_CANCELED
  returned : fin = .returned → values = [ret]
  exited : fin = .exited → Exited native ret values

/-- The states of a thread in its application function. -/
def InApp (state : LtState) : Prop := state = .running ∨ state = .canceled

def HostedOk (native : Bool) (dispIdx : ℕ) (ret : Argret) (values : List Argret) :
    WrapPc → LtState → Prop
  | .starting, state => state = .starting ∧ values = []
  | .app, state => InApp state ∧ values = []
  | .exiting, state => InApp state ∧ Exited native ret values
  | .cleanup true, state => InApp state ∧ dispIdx ≠ 0 ∧ values = if native then [ret] else []
  | .cleanup false, state =>
    state = .exited ∧ Exited native ret values ∨ InApp state ∧ values = []
  | .none, _ => False
  | .ended, _ => False

/-- The records of a thread with a slot, and those of one whose end was sent. -/
def News.hosted (values : List Argret) : News := ⟨1, values, [], 0, [], []⟩

def News.reported (values : List Argret) (fin : LtState) : News := ⟨1, values, [fin], 0, [], []⟩

def StageOk (native : Bool) (dispIdx : ℕ) (ret : Argret) (past : News) : Stage → Prop
  | .waiting => past = .none
  | .hosted pc state => ∃ values, past = .hosted values ∧
    HostedOk native dispIdx ret values pc state
  | .ended fin => ∃ values, past = .hosted values ∧ Agrees native fin ret values
  | .done => past = .hosted []
  | .reported fin => ∃ values, past = .reported values fin ∧ Agrees native fin ret values
  | .zombie fin => ∃ values, past = .reported values fin ∧ Agrees native fin ret values
  | .lost => ∃ values, past = ⟨1, values, [], 1, [], []⟩
  | .closed => past = .none ∨ ∃ values fin joined freed,
    past = ⟨1, values, [fin], 0, joined, freed⟩ ∧ Agrees native fin ret values ∧
      (joined = [ret] ∧ freed = [] ∨ joined = [] ∧ (freed = [ret] ∨ freed = []))

structure FateOk (job : Job) (f : Fate) : Prop where
  dispIdx : f.dispIdx < job.ndsps
  stage : StageOk (isNative job f) f.dispIdx f.ret f.past f.stage

theorem InApp.seal {state : LtState} (h : InApp state) (finalstate : LtState) :
    sealState state finalstate = finalstate ∨ sealState state finalstate = .canceled := by
  rcases h with rfl | rfl
  · exact .inl rfl
  · exact .inr rfl

theorem stamp_type {fin : LtState} (h : fin = .canceled ∨ fin = .cleanup) (ret : Argret) :
    (stamp fin ret).dtArgretType = DTHREAD_CANCELED := by
  simp [stamp, h]

theorem agrees_stamped {native : Bool} {fin : LtState} (h : fin = .canceled ∨ fin = .cleanup)
    (ret : Argret) (values : List Argret) : Agrees native fin (stamp fin ret) values where
  final := by rcases h with rfl | rfl <;> rfl
  canceled _ := stamp_type h ret
  returned hr := by simp [hr] at h
  exited he := by simp [he] at h

/-- A thread that returned, unless it was canceled before. -/
theorem agrees_returned {native : Bool} {state : LtState} (h : InApp state) (ret : Argret) :
    Agrees native (sealState state .returned) (stamp (sealState state .returned) ret) [ret] := by
  rcases h with rfl | rfl
  · exact ⟨rfl, nofun, fun _ => rfl, nofun⟩
  · exact agrees_stamped (.inl rfl) ret _

theorem News.hosted_add (values values' : List Argret) :
    (News.hosted values).add { News.none with values := values' } = .hosted (values ++ values') :=
  rfl

/-- Where `go` leads, with the same table entry. -/
theorem FateOk.go {job : Job} {f : Fate} (h : FateOk job f) {stage : Stage} {ret : Argret}
    {news : News}
    (hs : StageOk (isNative job f) f.dispIdx ret (f.past.add news) stage) :
    FateOk job (f.go stage ret news) :=
  ⟨h.dispIdx, hs⟩

/-- A step inside the slot that stores no value. -/
theorem FateOk.goHosted {job : Job} {f : Fate} (h : FateOk job f) {values : List Argret}
    (hpast : f.past = .hosted values) {pc : WrapPc} {state : LtState}
    (hs : HostedOk (isNative job f) f.dispIdx f.ret values pc state) :
    FateOk job (f.go (.hosted pc state) f.ret .none) :=
  h.go ⟨values, by rw [News.add_none, hpast], hs⟩

/-- The end of a thread, with the values it has produced now. -/
theorem FateOk.goEnded {job : Job} {f : Fate} (h : FateOk job f) {values : List Argret}
    (hpast : f.past = .hosted values) {fin : LtState} {ret : Argret} (values' : List Argret)
    (hs : Agrees (isNative job f) fin ret (values ++ values')) :
    FateOk job (f.go (.ended fin) ret { News.none with values := values' }) :=
  h.go ⟨values ++ values', by rw [hpast, News.hosted_add], hs⟩

theorem FateOk.reportedPast {job : Job} {f : Fate} (h : FateOk job f) {fin : LtState}
    (hf : f.stage = .reported fin ∨ f.stage = .zombie fin) :
    ∃ values, f.past = .reported values fin ∧ Agrees (isNative job f) fin f.ret values := by
  have hstage := h.stage
  rcases hf with hf | hf
  · rwa [hf] at hstage
  · rwa [hf] at hstage

/-- An entry is closed with its value delivered, freed or neither. -/
theorem FateOk.goClosed {job : Job} {f : Fate} (h : FateOk job f) {fin : LtState}
    (hf : f.stage = .reported fin ∨ f.stage = .zombie fin) {joined freed : List Argret}
    (hway : joined = [f.ret] ∧ freed = [] ∨ joined = [] ∧ (freed = [f.ret] ∨ freed = [])) :
    FateOk job (f.go .closed f.ret { News.none with joined := joined, freed := freed }) := by
  obtain ⟨values, hpast, hagree⟩ := h.reportedPast hf
  refine h.go (.inr ⟨values, fin, joined, freed, ?_, hagree, hway⟩)
  rw [hpast]
  simp [News.add, News.reported, News.none]

/-- Every step keeps the records, the final state and the value in agreement. -/
theorem FateStep.ok {job : Job} {f f' : Fate} {news : News} {loss : Loss} (h : FateOk job f)
    (hs : FateStep job f news loss f') : FateOk job f' := by
  have hstage := h.stage
  cases hs with
  | still => exact h
  | detach hzombie hclosed => exact ⟨h.dispIdx, hstage⟩
  | abandon fin hf => exact ⟨h.dispIdx, hstage⟩
  | host hf =>
    rw [hf] at hstage
    have hpast : f.past = .none := hstage
    exact h.go ⟨[], by rw [hpast]; rfl, rfl, rfl⟩
  | fail hf =>
    rw [hf] at hstage
    have hpast : f.past = .none := hstage
    exact h.go (.inl (by rw [News.add_none, hpast]))
  | publish state hf =>
    rw [hf] at hstage
    obtain ⟨values, hpast, -, hvalues⟩ := hstage
    exact h.goHosted hpast ⟨.inl rfl, hvalues⟩
  | cancel pc hf =>
    rw [hf] at hstage
    obtain ⟨values, hpast, hhosted⟩ := hstage
    refine h.goHosted hpast ?_
    cases pc with
    | none => exact hhosted.elim
    | starting => exact absurd hhosted.1 (by simp)
    | app => exact ⟨.inr rfl, hhosted.2⟩
    | exiting => exact ⟨.inr rfl, hhosted.2⟩
    | cleanup returned =>
      cases returned with
      | true => exact ⟨.inr rfl, hhosted.2⟩
      | false =>
        rcases hhosted with ⟨hstate, -⟩ | ⟨-, hvalues⟩
        · exact absurd hstate (by simp)
        · exact .inr ⟨.inr rfl, hvalues⟩
    | ended => exact hhosted.elim
  | exit state ret values hf hret =>
    rw [hf] at hstage
    obtain ⟨old, hpast, happ, rfl⟩ := hstage
    exact h.go ⟨values, by rw [hpast, News.hosted_add, List.nil_append], happ, hret⟩
  | exited state hf =>
    rw [hf] at hstage
    obtain ⟨values, hpast, -, hret⟩ := hstage
    exact h.goHosted hpast (.inl ⟨rfl, hret⟩)
  | appReturn state ret hf hdisp hnative =>
    rw [hf] at hstage
    obtain ⟨old, hpast, happ, rfl⟩ := hstage
    refine h.go ⟨[ret], by rw [hpast, News.hosted_add, List.nil_append], happ, hdisp, ?_⟩
    rw [hnative, if_pos rfl]
  | appReturnPth state hf hdisp hnative =>
    rw [hf] at hstage
    obtain ⟨old, hpast, happ, rfl⟩ := hstage
    refine h.goHosted hpast ⟨happ, hdisp, ?_⟩
    simp [hnative]
  | tearDown state hf =>
    rw [hf] at hstage
    obtain ⟨old, hpast, happ, rfl⟩ := hstage
    exact h.goHosted hpast (.inr ⟨happ, rfl⟩)
  | wrapFail state hf =>
    rw [hf] at hstage
    obtain ⟨old, hpast, rfl, rfl⟩ := hstage
    exact h.goEnded hpast [] (agrees_stamped (.inl rfl) _ _)
  | cleanup state hf =>
    rw [hf] at hstage
    obtain ⟨old, hpast, ⟨rfl, hret⟩ | ⟨happ, rfl⟩⟩ := hstage
    · refine h.goEnded hpast [] ⟨rfl, nofun, nofun, fun _ => ?_⟩
      simpa [sealState, stamp, LtState.needFinalstate, LtState.code] using hret
    · refine h.goEnded hpast [] (agrees_stamped ?_ _ _)
      rcases happ.seal .cleanup with hfin | hfin
      · exact .inr hfin
      · exact .inl hfin
  | returned state hf hnative =>
    rw [hf] at hstage
    obtain ⟨old, hpast, happ, -, hvalues⟩ := hstage
    rw [hnative, if_pos rfl] at hvalues
    subst hvalues
    exact h.goEnded hpast [] (agrees_returned happ _)
  | encode state ret hf hnative =>
    rw [hf] at hstage
    obtain ⟨old, hpast, happ, -, hvalues⟩ := hstage
    simp only [hnative, Bool.false_eq_true, if_false] at hvalues
    subst hvalues
    exact h.goEnded hpast [ret] (agrees_returned happ ret)
  | encodeFail state hf hnative =>
    rw [hf] at hstage
    obtain ⟨old, hpast, happ, -⟩ := hstage
    refine h.goEnded hpast [] (agrees_stamped ?_ _ _)
    rcases happ.seal .canceled with hfin | hfin
    · exact .inl hfin
    · exact .inl hfin
  | app0Return state hf hdisp =>
    rw [hf] at hstage
    obtain ⟨old, hpast, happ, rfl⟩ := hstage
    refine h.go ?_
    rw [News.add_none, hpast]
    rfl
  | report fin hf =>
    rw [hf] at hstage
    obtain ⟨values, hpast, hagree⟩ := hstage
    refine h.go ⟨values, ?_, hagree⟩
    rw [hpast]
    simp [News.add, News.hosted, News.reported, News.none]
  | drop fin hf =>
    rw [hf] at hstage
    obtain ⟨values, hpast, hagree⟩ := hstage
    refine h.go ⟨values, ?_⟩
    rw [hpast]
    simp [News.add, News.hosted, News.none]
  | terminate fin hf hdet =>
    rw [hf] at hstage
    obtain ⟨values, hpast, hagree⟩ := hstage
    exact h.go ⟨values, by rw [News.add_none, hpast], hagree⟩
  | free fin hf hdet =>
    refine h.goClosed (.inl hf) (.inr ⟨rfl, ?_⟩)
    split
    · exact .inl rfl
    · exact .inr rfl
  | join fin hf hdet => exact h.goClosed hf (.inl ⟨rfl, rfl⟩)
  | silence fin hf hdet => exact h.goClosed hf (.inr ⟨rfl, .inr rfl⟩)

/-- The value of a thread that is not lost: it is still in the table, where
somebody will take it, or it was delivered or freed. -/
def KeptAt (ret : Argret) (past : News) (detached : Bool) : Stage → Prop
  | .ended _ => past.values = [] ∨ past.values = [ret]
  | .reported _ => past.values = [] ∨ past.values = [ret]
  | .lost => past.values = [] ∨ past.values = [ret]
  | .zombie _ => (past.values = [] ∨ past.values = [ret]) ∧ detached = false
  | .closed => past.values = [] ∨ past.joined ++ past.freed = past.values
  | _ => True

def Kept (f : Fate) : Prop := KeptAt f.ret f.past f.detached f.stage

theorem Exited.kept {native : Bool} {ret : Argret} {values : List Argret}
    (h : Exited native ret values) : values = [] ∨ values = [ret] := by
  rcases h with h | ⟨h, -⟩
  · exact .inr h
  · exact .inl h

/-- A step without a loss keeps the value of a thread with proc functions. -/
theorem FateStep.kept {job : Job} {f f' : Fate} {news : News} (h : FateOk job f)
    (hpth : isNative job f = false) (hk : Kept f) (hs : FateStep job f news .none f') :
    Kept f' := by
  have hstage := h.stage
  generalize hloss : Loss.none = loss at hs
  cases hs with
  | still => exact hk
  | detach hzombie hclosed =>
    unfold Kept at hk ⊢
    cases hf : f.stage with
    | zombie fin => exact absurd hf (hzombie fin)
    | _ =>
      rw [hf] at hk
      exact hk
  | abandon fin hf => cases hloss
  | wrapFail state hf =>
    rw [hf] at hstage
    obtain ⟨values, hpast, -, rfl⟩ := hstage
    left
    simp [Fate.go, hpast, News.hosted]
  | cleanup state hf =>
    rw [hf] at hstage
    obtain ⟨values, hpast, ⟨rfl, hret⟩ | ⟨-, rfl⟩⟩ := hstage
    · have hv := hret.kept
      simpa [Kept, KeptAt, Fate.go, hpast, News.hosted, sealState, stamp,
        LtState.needFinalstate, LtState.code] using hv
    · left
      simp [Fate.go, hpast, News.hosted]
  | returned state hf hnative => simp [hpth] at hnative
  | encode state ret hf hnative =>
    rw [hf] at hstage
    obtain ⟨values, hpast, happ, -, hvalues⟩ := hstage
    simp only [hnative, Bool.false_eq_true, if_false] at hvalues
    subst hvalues
    rcases happ with rfl | rfl
    · right
      simp [Fate.go, hpast, News.hosted, News.add, News.none, sealState, stamp,
        LtState.needFinalstate, LtState.code]
    · simp at hloss
  | encodeFail state hf hnative =>
    rw [hf] at hstage
    obtain ⟨values, hpast, happ, -, hvalues⟩ := hstage
    simp only [hnative, Bool.false_eq_true, if_false] at hvalues
    left
    simp [Fate.go, hpast, hvalues, News.hosted]
  | fail hf =>
    rw [hf] at hstage
    have hpast : f.past = .none := hstage
    left
    simp [Fate.go, hpast, News.none, News.add]
  | report fin hf =>
    unfold Kept at hk
    rw [hf] at hk
    simpa [Kept, KeptAt, Fate.go, News.add, News.none] using hk
  | drop fin hf =>
    unfold Kept at hk
    rw [hf] at hk
    simpa [Kept, KeptAt, Fate.go, News.add, News.none] using hk
  | terminate fin hf hdet =>
    unfold Kept at hk
    rw [hf] at hk
    exact ⟨by simpa [KeptAt, Fate.go] using hk, hdet⟩
  | free fin hf hdet =>
    obtain ⟨values, hpast, -⟩ := h.reportedPast (.inl hf)
    unfold Kept at hk
    rw [hf] at hk
    split at hloss
    · rename_i hfrees
      simpa [Kept, KeptAt, Fate.go, hpast, hfrees, News.add, News.reported, News.none, eq_comm]
        using hk
    · cases hloss
  | join fin hf hdet =>
    have hvalues : f.past.values = [] ∨ f.past.values = [f.ret] := by
      unfold Kept at hk
      rcases hf with hf | hf
      · rwa [hf] at hk
      · rw [hf] at hk
        exact hk.1
    obtain ⟨values, hpast, -⟩ := h.reportedPast hf
    simpa [Kept, KeptAt, Fate.go, hpast, News.add, News.reported, News.none, eq_comm]
      using hvalues
  | silence fin hf hdet => cases hloss
  | _ => trivial

end Dthread.ThreadFates
