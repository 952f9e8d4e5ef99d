import Dthread.JobSystem

/-!
Matching of requests and replies. A request that waits on a rank's pending
list has one token in the system, and a token changes its form: the request
message, the START request that rank 0 keeps for a CREATE, the JOINWAIT it
keeps for a JOIN, or the reply message. Every handler moves tokens and pending
requests together, so the two counts stay equal; while a rank drains, tokens
get lost and none appears.
-/
namespace Dthread.RequestReply

open ReqMsg Queuing ManagerTables ManagerHandlers ManagerEffects ManagerOutcomes AppThreads
open FifoNet JobSystem

/-- What identifies an outstanding request: its rank, operation and xidseq. -/
structure Key where
  rank : ℕ
  op : Op
  xidseq : ℕ
deriving DecidableEq, Repr

/-- The request a packet carries or answers. -/
def packetKey (p : Packet) : Option Key :=
  match p.frame.body with
  | .create .. => some ⟨p.src, .create, p.frame.xidseq⟩
  | .start .. => some ⟨p.src, .start, p.frame.xidseq⟩
  | .detach .. => some ⟨p.src, .detach, p.frame.xidseq⟩
  | .cancel .. => some ⟨p.src, .cancel, p.frame.xidseq⟩
  | .join .. => some ⟨p.src, .join, p.frame.xidseq⟩
  | .created .. => some ⟨p.dst, .create, p.frame.xidseq⟩
  | .started .. => some ⟨p.dst, .start, p.frame.xidseq⟩
  | .detached .. => some ⟨p.dst, .detach, p.frame.xidseq⟩
  | .canceled .. => some ⟨p.dst, .cancel, p.frame.xidseq⟩
  | .joined .. => some ⟨p.dst, .join, p.frame.xidseq⟩
  | .terminated .. => none
  | .bcastshutdown => none
  | .other _ => none

/-- The request that a START or JOINWAIT of rank 0 stands for. -/
def waitKey (rqe : Request) : Option Key :=
  match rqe.reqop with
  | .start => some ⟨rqe.creinfo.cPeer, .create, rqe.creinfo.cXidseq⟩
  | .joinwait => some ⟨rqe.reqpeer, .join, rqe.xidseq⟩
  | _ => none

def inFlight (net : List Packet) (k : Key) : ℕ := net.countP fun p => packetKey p == some k

def kept (rpending : List Request) (k : Key) : ℕ := rpending.countP fun rqe => waitKey rqe == some k

def tokens (s : Sys) (k : Key) : ℕ := inFlight s.net k + kept (s.rk 0).mgr.rpending k

def pending (s : Sys) (k : Key) : ℕ :=
  (s.rk k.rank).mgr.rpending.countP (pendingMatch k.op k.xidseq)

/-- The operations that wait for a reply. -/
def awaited (op : Op) : Bool := forwarded op || op == .start

/-- What the senders guarantee about the messages on their way. -/
structure Wellformed (s : Sys) : Prop where
  frames : ∀ p ∈ s.net, p.frame.flen = p.frame.body.size
  rank0 : ∀ p ∈ s.net, rank0Only p.frame.body.op = true → p.dst = 0
  starts : ∀ p ∈ s.net, p.frame.body.op = .start → p.src = 0
  requests : ∀ r, ∀ rqe ∈ (s.rk r).dtq.mgrreqq, ∀ mqe, rqe.mqe = some mqe →
    mqe.frame.flen = mqe.frame.body.size ∧ mqe.frame.body.op = rqe.reqop ∧
      (rank0Only rqe.reqop = true → mqe.peer = 0)

/-- A message a handler at rank `r` may post. -/
def PostOk (r : ℕ) (post : Post) : Prop :=
  post.2.flen = post.2.body.size ∧ (rank0Only post.2.body.op = true → post.1 = 0) ∧
    (post.2.body.op = .start → r = 0)

theorem mqeOutcome_postOk {job : Job} {v : View} {mqe : Mqe} {m : Mgr} {gt : ℕ → Gtab}
    {out : List Post} {r : ℕ} (h : MqeOutcome job v mqe m gt out)
    (hr : rank0Only mqe.frame.body.op = true → r = 0) : ∀ post ∈ out, PostOk r post := by
  cases h with
  | createOk attrs dispIdx arg n gidx xidseq hb hdisp hroom hfree hlt hxid hd =>
    have hr0 : r = 0 := hr (by rw [hb]; rfl)
    simp [PostOk, Frame.of, rank0Only, Body.op, hr0]
  | _ => simp [PostOk, Frame.of, rank0Only, Body.op, joinedPost]

theorem reqOutcome_postOk {job : Job} {v : View} {rqe : Request} {m : Mgr} {gt : ℕ → Gtab}
    {out : List Post} (r : ℕ) (h : ReqOutcome job v rqe m gt out)
    (hrqe : ∀ mqe, rqe.mqe = some mqe → mqe.frame.flen = mqe.frame.body.size ∧
      mqe.frame.body.op = rqe.reqop ∧ (rank0Only rqe.reqop = true → mqe.peer = 0)) :
    ∀ post ∈ out, PostOk r post := by
  cases h with
  | forward l mqe xidseq haddr hlt hbusy hop hmqe hxid hd =>
    obtain ⟨hlen, hbop, hpeer⟩ := hrqe mqe hmqe
    have hstart : rqe.reqop ≠ .start := by
      intro hc
      simp [hc, forwarded] at hop
    simp only [List.mem_singleton, forall_eq, PostOk]
    refine ⟨hlen, ?_, ?_⟩
    · rw [hbop]
      exact hpeer
    · rw [hbop]
      exact fun hc => absurd hc hstart
  | _ => simp [PostOk, Frame.of, rank0Only, Body.op]

theorem bcasts_postOk (job : Job) (r r' : ℕ) : ∀ post ∈ bcasts job r, PostOk r' post := by
  simp [bcasts, PostOk, Frame.of, rank0Only, Body.op]

theorem requestPeer_rank0 {job : Job} {gtab : ℕ → Gtab} {self peer : ℕ} {body : Body}
    (h : requestPeer job gtab self body = some peer) :
    forwarded body.op = true ∧ (rank0Only body.op = true → peer = 0) := by
  cases body <;> simp [requestPeer, forwarded, rank0Only, Body.op] at h ⊢
  · exact h.2.2.symm
  · exact h.2.symm
  · split at h
    · simp at h
    · simp at h
      exact h.2.2.symm

theorem mem_sent {s : Sys} {r : ℕ} {out : List Post} {post : Post} (h : post ∈ sent s r out) :
    post ∈ out := by
  unfold sent at h
  split at h
  · exact h
  · simp at h

namespace Wellformed

variable {s s' : Sys} {r : ℕ} {m : Mgr} {gt : ℕ → Gtab} {rq : List Request}
  {net : List Packet} {posts : List Post}

theorem change (h : Wellformed s) (hc : Change s s' r m gt rq net posts)
    (hnet : ∀ p ∈ net, p ∈ s.net) (hposts : ∀ post ∈ posts, PostOk r post)
    (hrq : ∀ rqe ∈ rq, ∀ mqe, rqe.mqe = some mqe →
      mqe.frame.flen = mqe.frame.body.size ∧ mqe.frame.body.op = rqe.reqop ∧
        (rank0Only rqe.reqop = true → mqe.peer = 0)) : Wellformed s' := by
  have hmem : ∀ p ∈ s'.net, p ∈ s.net ∨ ∃ post ∈ posts, pack r post = p := by
    intro p hp
    rw [hc.net, List.mem_append, List.mem_map] at hp
    exact hp.imp (hnet p) id
  refine ⟨?_, ?_, ?_, ?_⟩
  · intro p hp
    rcases hmem p hp with hp | ⟨post, hpost, rfl⟩
    · exact h.frames p hp
    · exact (hposts post hpost).1
  · intro p hp
    rcases hmem p hp with hp | ⟨post, hpost, rfl⟩
    · exact h.rank0 p hp
    · exact (hposts post hpost).2.1
  · intro p hp
    rcases hmem p hp with hp | ⟨post, hpost, rfl⟩
    · exact h.starts p hp
    · exact (hposts post hpost).2.2
  · intro r' rqe hrqe
    by_cases hr : r' = r
    · subst hr
      rw [hc.mgrreqq] at hrqe
      exact hrq rqe hrqe
    · rw [hc.others r' hr] at hrqe
      exact h.requests r' rqe hrqe

end Wellformed

theorem wellformed_init (job : Job) : Wellformed (sysInit job) where
  frames p hp := by simp [sysInit] at hp
  rank0 p hp := by simp [sysInit] at hp
  starts p hp := by simp [sysInit] at hp
  requests r rqe hrqe := by
    by_cases hr : r = 0
    · subst hr
      simp [sysInit, mgrStartapp, dtqInit] at hrqe
    · simp [sysInit, hr, dtqInit] at hrqe

theorem wellformed_step {job : Job} {s s' : Sys} (h : Wellformed s) {o : Option Packet}
    (hs : StepCase job s s' o) :
    Wellformed s' := by
  cases hs with
  | app r l lt gt rq hr hl hdd ho hc =>
    refine h.change hc (fun _ => id) (by simp) ?_
    intro rqe hrqe mqe hmqe
    rw [List.mem_append] at hrqe
    rcases hrqe with hrqe | hrqe
    · exact h.requests r rqe hrqe mqe hmqe
    · cases ho with
      | post body peer addr hpc hidle hpeer =>
        obtain rfl : rqe = _ := by simpa using hrqe
        obtain rfl : _ = mqe := by simpa [threadRequest] using hmqe
        exact ⟨rfl, rfl, (requestPeer_rank0 hpeer).2⟩
      | retclean state ret hpc hfinal hkeep =>
        obtain rfl : rqe = _ := by simpa using hrqe
        simp [threadRequest] at hmqe
      | app0Return hpc hidle hdisp =>
        obtain rfl : rqe = _ := by simpa using hrqe
        simp [threadRequest] at hmqe
      | _ => simp at hrqe
  | recv p net addr m gt out hr hd hdd ho hc =>
    refine h.change hc (fun _ => hd.mem_of_mem) (fun post hpost => ?_) (h.requests p.dst)
    exact mqeOutcome_postOk ho (h.rank0 p hd.mem) post (mem_sent hpost)
  | recvShutdown p net hr hd hb hdd hc =>
    refine h.change hc (fun _ => hd.mem_of_mem) (fun post hpost => ?_) (h.requests p.dst)
    exact bcasts_postOk job _ _ post (mem_sent hpost)
  | req r rqe rest m gt out hr hq hdd ho hc =>
    have hreq := h.requests r
    rw [hq] at hreq
    refine h.change hc (fun _ => id) (fun post hpost => ?_)
      (fun rqe' hrqe' => hreq rqe' (List.mem_cons_of_mem _ hrqe'))
    exact reqOutcome_postOk r ho (hreq rqe List.mem_cons_self) post (mem_sent hpost)
  | reqShutdown r l rqe rest hr hq hop haddr hrank hdd hc =>
    have hreq := h.requests r
    rw [hq] at hreq
    refine h.change hc (fun _ => id) (fun post hpost => ?_)
      (fun rqe' hrqe' => hreq rqe' (List.mem_cons_of_mem _ hrqe'))
    exact bcasts_postOk job _ _ post (mem_sent hpost)
  | shutdown hidle hdrain hdd hc =>
    refine h.change hc (fun _ => id) (fun post hpost => ?_) (h.requests 0)
    exact bcasts_postOk job _ _ post (mem_sent hpost)

theorem reachable_wellformed {job : Job} {s : Sys} (h : Reachable job s) : Wellformed s :=
  h.invariant (wellformed_init job) fun _ _ _ hi hs => wellformed_step hi hs

/-- The tokens that rank `r` keeps in its pending list. -/
def keptAt (r : ℕ) (rpending : List Request) (k : Key) : ℕ := if r = 0 then kept rpending k else 0

/-- The requests with key `k` that wait in the pending list of rank `r`. -/
def pendingAt (r : ℕ) (rpending : List Request) (k : Key) : ℕ :=
  if r = k.rank then rpending.countP (pendingMatch k.op k.xidseq) else 0

def worth (o : Option Key) (k : Key) : ℕ := if o = some k then 1 else 0

theorem inFlight_append (net net' : List Packet) (k : Key) :
    inFlight (net ++ net') k = inFlight net k + inFlight net' k := by
  simp [inFlight]

@[simp] theorem inFlight_nil (k : Key) : inFlight [] k = 0 := rfl

@[simp] theorem inFlight_cons (p : Packet) (net : List Packet) (k : Key) :
    inFlight (p :: net) k = worth (packetKey p) k + inFlight net k := by
  simp [inFlight, worth, List.countP_cons, add_comm]

theorem keptAt_append (r : ℕ) (l : List Request) (rqe : Request) (k : Key) :
    keptAt r (l ++ [rqe]) k = keptAt r l k + if r = 0 then worth (waitKey rqe) k else 0 := by
  unfold keptAt
  split <;> simp [kept, worth]

theorem keptAt_eraseP (r : ℕ) {l : List Request} {f : Request → Bool} {rqe : Request}
    (h : l.find? f = some rqe) (k : Key) :
    keptAt r l k = keptAt r (l.eraseP f) k + if r = 0 then worth (waitKey rqe) k else 0 := by
  unfold keptAt
  split
  · simpa [kept, worth] using countP_eraseP_of_find h fun rqe => waitKey rqe == some k
  · rfl

/-- The key of a request that itself waits for a reply. -/
def requestKey (r : ℕ) (rqe : Request) : Key := ⟨r, rqe.reqop, rqe.xidseq⟩

theorem pendingAt_append (r : ℕ) (l : List Request) (rqe : Request) (k : Key) :
    pendingAt r (l ++ [rqe]) k = pendingAt r l k + worth (some (requestKey r rqe)) k := by
  obtain ⟨kr, kop, kx⟩ := k
  unfold pendingAt
  split
  · rename_i hr
    simp only at hr
    simp [worth, requestKey, pendingMatch, hr, and_comm]
  · rename_i hr
    simp only at hr
    simp [worth, requestKey, hr]

theorem pendingAt_eraseP (r : ℕ) {l : List Request} {f : Request → Bool} {rqe : Request}
    (h : l.find? f = some rqe) (k : Key) :
    pendingAt r l k = pendingAt r (l.eraseP f) k + worth (some (requestKey r rqe)) k := by
  obtain ⟨kr, kop, kx⟩ := k
  unfold pendingAt
  split
  · rename_i hr
    simp only at hr
    simpa [worth, requestKey, pendingMatch, hr, and_comm] using
      countP_eraseP_of_find h (pendingMatch kop kx)
  · rename_i hr
    simp only at hr
    simp [worth, requestKey, hr]

theorem worth_joinwait {k : Key} (hk : awaited k.op = true) (r : ℕ) {rqe : Request}
    (hop : rqe.reqop = .joinwait) : worth (some (requestKey r rqe)) k = 0 := by
  unfold worth
  rw [if_neg]
  rintro ⟨rfl⟩
  simp [requestKey, hop, awaited, forwarded] at hk

/-- A handler at rank `r` that takes a packet worth `input`: the tokens it
leaves and sends, and the requests it found pending, against those before. -/
def Balanced (r : ℕ) (k : Key) (input : ℕ) (old new : List Request) (out : List Post) : Prop :=
  inFlight (out.map (pack r)) k + keptAt r new k + pendingAt r old k =
    input + keptAt r old k + pendingAt r new k

theorem findPendingReq_spec {l : List Request} {op : Op} {seq : ℕ} {rqe : Request}
    (h : findPendingReq l op seq = some rqe) : rqe.xidseq = seq ∧ rqe.reqop = op := by
  have hmatch := List.find?_some h
  simpa [pendingMatch] using hmatch

theorem forwarded_of_replyTo {body : Body} {op : Op} (h : replyTo body = some op) :
    forwarded op = true := by
  cases body <;> simp [replyTo] at h <;> subst h <;> rfl

theorem packetKey_of_replyTo {p : Packet} {op : Op} (h : replyTo p.frame.body = some op) :
    packetKey p = some ⟨p.dst, op, p.frame.xidseq⟩ := by
  unfold packetKey
  cases hb : p.frame.body <;> simp [hb, replyTo] at h <;> subst h <;> rfl

theorem waitKey_of_forwarded {rqe : Request} (h : forwarded rqe.reqop = true) :
    waitKey rqe = none := by
  unfold waitKey
  cases hop : rqe.reqop <;> simp [hop, forwarded] at h ⊢

/-- A JOINWAIT is exchanged for the JOINED to the rank that asked. -/
theorem balanced_endWait {l : List Request} {thread : DThread} {rqe : Request} {k : Key}
    (hk : awaited k.op = true) (hw : l.find? (joinwaitMatch thread) = some rqe)
    (rqe' : Request) (ret : Argret) (hpeer : rqe'.reqpeer = rqe.reqpeer)
    (hxid : rqe'.xidseq = rqe.xidseq) :
    Balanced 0 k 0 l (l.eraseP (joinwaitMatch thread)) [joinedPost rqe' ret] := by
  have hop : rqe.reqop = .joinwait := by
    have hmatch := List.find?_some hw
    simp only [joinwaitMatch, Bool.and_eq_true, beq_iff_eq] at hmatch
    exact hmatch.1
  have hkey : packetKey (pack 0 (joinedPost rqe' ret)) = waitKey rqe := by
    simp [packetKey, pack, joinedPost, Frame.of, waitKey, hop, hpeer, hxid]
  simp only [Balanced, List.map_cons, List.map_nil, inFlight_cons, inFlight_nil, hkey,
    keptAt_eraseP 0 hw k, pendingAt_eraseP 0 hw k, worth_joinwait hk 0 hop, if_true]
  omega

/-- A STARTED ends its START and the CREATED goes to the rank that asked. -/
theorem balanced_started {l : List Request} {rqe : Request} {k : Key} {p : Packet} {e : ℕ}
    (h : findPendingReq l .start p.frame.xidseq = some rqe)
    (hb : p.frame.body = .started e) (hdst : p.dst = 0) (e' : ℕ) (newthread : DThread) :
    Balanced 0 k (worth (packetKey p) k) l (l.eraseP (pendingMatch .start p.frame.xidseq))
      [(rqe.creinfo.cPeer, .of rqe.creinfo.cXidseq (.created e' newthread))] := by
  obtain ⟨hxid, hop⟩ := findPendingReq_spec h
  have hkey : packetKey (pack 0 (rqe.creinfo.cPeer,
      .of rqe.creinfo.cXidseq (.created e' newthread))) = waitKey rqe := by
    simp [packetKey, pack, Frame.of, waitKey, hop]
  have hinput : packetKey p = some (requestKey 0 rqe) := by
    simp [packetKey, hb, hdst, requestKey, hop, hxid]
  simp only [Balanced, List.map_cons, List.map_nil, inFlight_cons, inFlight_nil, hkey, hinput,
    keptAt_eraseP 0 h k, pendingAt_eraseP 0 h k, if_true]
  omega

/-- A message that is answered at once, or that nobody waits for. -/
theorem balanced_answered {r : ℕ} {k : Key} {input : ℕ} (l : List Request) {out : List Post}
    (h : inFlight (out.map (pack r)) k = input) : Balanced r k input l l out := by
  unfold Balanced
  omega

/-- A CREATE is kept as a START, whose message goes to the chosen rank. -/
theorem balanced_create {l : List Request} {p : Packet} {attrs : Attr} {dispIdx : ℕ} {arg : Argret}
    (hb : p.frame.body = .create attrs dispIdx arg) (n target xidseq : ℕ) (thread : DThread)
    (attrs' : Attr) (k : Key) :
    Balanced 0 k (worth (packetKey p) k) l
      (l ++ [startRequest n target xidseq ⟨thread, p.src, p.frame.xidseq⟩])
      [(target, .of xidseq (.start thread attrs'))] := by
  have hwait : waitKey (startRequest n target xidseq ⟨thread, p.src, p.frame.xidseq⟩) =
      packetKey p := by
    simp [waitKey, startRequest, packetKey, hb]
  have hpend : some (requestKey 0
      (startRequest n target xidseq ⟨thread, p.src, p.frame.xidseq⟩)) =
        packetKey (pack 0 (target, .of xidseq (.start thread attrs'))) := rfl
  simp only [Balanced, keptAt_append, pendingAt_append, hwait, hpend, if_true,
    List.map_cons, List.map_nil, inFlight_cons, inFlight_nil]
  omega

/-- A DETACH is answered, and so is the JOINWAIT that it ends. -/
theorem balanced_detachWait {l : List Request} {p : Packet} {thread : DThread} {rqe : Request}
    {k : Key} (hk : awaited k.op = true) (hb : p.frame.body = .detach thread)
    (hw : l.find? (joinwaitMatch thread) = some rqe) :
    Balanced 0 k (worth (packetKey p) k) l (l.eraseP (joinwaitMatch thread))
      [(p.src, .of p.frame.xidseq (.detached 0)),
        joinedPost { rqe with reqerror := EINVAL } nodata] := by
  have hend := balanced_endWait hk hw { rqe with reqerror := EINVAL } nodata rfl rfl
  have hreply : packetKey (pack 0 (p.src, .of p.frame.xidseq (.detached 0))) = packetKey p := by
    simp [packetKey, pack, Frame.of, hb]
  simp only [Balanced, List.map_cons, List.map_nil, inFlight_cons, inFlight_nil, hreply]
    at hend ⊢
  omega

/-- A JOIN of a thread that runs is kept as a JOINWAIT. -/
theorem balanced_joinWait {l : List Request} {p : Packet} {thread : DThread} {k : Key}
    (hk : awaited k.op = true) (hb : p.frame.body = .join thread) (n : ℕ) :
    Balanced 0 k (worth (packetKey p) k) l
      (l ++ [joinwaitRequest n p.src p.frame.xidseq thread]) [] := by
  have hwait : waitKey (joinwaitRequest n p.src p.frame.xidseq thread) = packetKey p := by
    simp [waitKey, joinwaitRequest, packetKey, hb]
  have hzero : worth (some (requestKey 0 (joinwaitRequest n p.src p.frame.xidseq thread))) k =
      0 := worth_joinwait hk 0 rfl
  simp only [Balanced, keptAt_append, pendingAt_append, hwait, hzero, if_true, List.map_nil,
    inFlight_nil]
  omega

/-- A TERMINATED is worth nothing; the JOINWAIT that it ends is answered. -/
theorem balanced_terminated {l : List Request} {p : Packet} {thread : DThread} {fin : LtState}
    {rqe : Request} {k : Key} (hk : awaited k.op = true)
    (hb : p.frame.body = .terminated thread fin)
    (hw : l.find? (joinwaitMatch thread) = some rqe) (rqe' : Request) (ret : Argret)
    (hpeer : rqe'.reqpeer = rqe.reqpeer) (hxid : rqe'.xidseq = rqe.xidseq) :
    Balanced 0 k (worth (packetKey p) k) l (l.eraseP (joinwaitMatch thread))
      [joinedPost rqe' ret] := by
  have hnone : worth (packetKey p) k = 0 := by simp [worth, packetKey, hb]
  rw [hnone]
  exact balanced_endWait hk hw rqe' ret hpeer hxid

/-- The reply to a request of a thread ends that request. -/
theorem balanced_reply {l : List Request} {p : Packet} {op : Op} {rqe : Request} (k : Key)
    (hop : replyTo p.frame.body = some op)
    (h : findPendingReq l op p.frame.xidseq = some rqe) :
    Balanced p.dst k (worth (packetKey p) k) l (l.eraseP (pendingMatch op p.frame.xidseq)) [] := by
  obtain ⟨hxid, hreq⟩ := findPendingReq_spec h
  have hkey : packetKey p = some (requestKey p.dst rqe) := by
    rw [packetKey_of_replyTo hop, requestKey, hreq, hxid]
  have hwait : waitKey rqe = none := waitKey_of_forwarded (hreq ▸ forwarded_of_replyTo hop)
  simp only [Balanced, List.map_nil, inFlight_nil, keptAt_eraseP p.dst h k,
    pendingAt_eraseP p.dst h k, hkey, hwait]
  simp [worth]
  omega

theorem mqeOutcome_balanced {job : Job} {v : View} {addr : ℕ} {p : Packet} {m : Mgr}
    {gt : ℕ → Gtab} {out : List Post} {k : Key}
    (h : MqeOutcome job v ⟨addr, p.src, p.frame⟩ m gt out) (hk : awaited k.op = true)
    (hrank0 : rank0Only p.frame.body.op = true → p.dst = 0)
    (hstart : p.frame.body.op = .start → p.src = 0) :
    (Dropped job v ⟨addr, p.src, p.frame⟩ ∧ m = v.mgr ∧ out = []) ∨
      Balanced p.dst k (worth (packetKey p) k) v.mgr.rpending m.rpending out := by
  cases h with
  | drop h => exact .inl ⟨h, rfl, rfl⟩
  | createErr _ _ _ _ _ hb | createDrain _ _ _ _ _ hb | detachNone _ hb | detachPlain _ hb
  | cancelErr _ _ hb | cancelMiss _ hb | cancelHit _ _ hb | joinErr _ _ hb | joinZombie _ hb =>
    right
    simp only at hb
    exact balanced_answered _ (by simp [packetKey, pack, Frame.of, hb])
  | startInvalid _ _ hb | startOk _ _ _ hb | startFail _ _ _ _ hb =>
    right
    simp only at hb
    have hsrc : p.src = 0 := hstart (by rw [hb]; rfl)
    exact balanced_answered _ (by simp [packetKey, pack, Frame.of, hb, hsrc])
  | terminatedZombie _ _ hb | terminatedDetached _ _ hb =>
    right
    simp only at hb
    exact balanced_answered _ (by simp [packetKey, hb, worth])
  | createOk attrs dispIdx arg n gidx xidseq hb =>
    right
    simp only at hb
    rw [hrank0 (by rw [hb]; rfl)]
    exact balanced_create hb n v.mgr.nextRank xidseq _ _ k
  | detachWait thread rqe hb h hw =>
    right
    simp only at hb
    rw [hrank0 (by rw [hb]; rfl)]
    exact balanced_detachWait hk hb hw
  | joinWait thread n hb =>
    right
    simp only at hb
    rw [hrank0 (by rw [hb]; rfl)]
    exact balanced_joinWait hk hb n
  | terminatedJoined thread fin rqe hb hlen hlt hseq hfin hdet hw =>
    right
    simp only at hb
    rw [hrank0 (by rw [hb]; rfl)]
    exact balanced_terminated hk hb hw rqe _ rfl rfl
  | terminatedDetachedJoined thread fin rqe hb hlen hlt hseq hfin hdet hw =>
    right
    simp only at hb
    rw [hrank0 (by rw [hb]; rfl)]
    exact balanced_terminated hk hb hw { rqe with reqerror := EINVAL } _ rfl rfl
  | startedOk rqe hb h =>
    right
    simp only at hb
    have hzero : p.dst = 0 := hrank0 (by rw [hb]; rfl)
    rw [hzero]
    exact balanced_started h hb hzero 0 _
  | startedErr rqe e hb he h =>
    right
    simp only at hb
    have hzero : p.dst = 0 := hrank0 (by rw [hb]; rfl)
    rw [hzero]
    exact balanced_started h hb hzero e _
  | reply op rqe rqe' hop h => exact .inr (balanced_reply k hop h)

theorem reqOutcome_balanced {job : Job} {v : View} {rqe : Request} {m : Mgr} {gt : ℕ → Gtab}
    {out : List Post} {k : Key} (r : ℕ) (h : ReqOutcome job v rqe m gt out)
    (hrqe : ∀ mqe, rqe.mqe = some mqe → mqe.frame.body.op = rqe.reqop) :
    Balanced r k 0 v.mgr.rpending m.rpending out := by
  cases h with
  | forward l mqe xidseq haddr hlt hbusy hop hmqe hxid hd =>
    have hkey : packetKey (pack r (mqe.peer, { mqe.frame with xidseq := xidseq })) =
        some (requestKey r { rqe with mqe := none, xidseq := xidseq }) := by
      have hbop := hrqe mqe hmqe
      rw [← hbop] at hop
      simp only [requestKey, ← hbop]
      unfold packetKey
      cases hb : mqe.frame.body <;> simp [hb, forwarded, Body.op] at hop <;>
        simp [pack, Body.op]
    have hwait : waitKey { rqe with mqe := none, xidseq := xidseq } = none :=
      waitKey_of_forwarded hop
    simp only [Balanced, keptAt_append, pendingAt_append, hwait, List.map_cons, List.map_nil,
      inFlight_cons, inFlight_nil, hkey]
    simp [worth]
    omega
  | bad h => simp [Balanced, releaseMgr]
  | forwardDrain l xidseq haddr hlt hbusy hop hd => simp [Balanced, releaseMgr]
  | retclean l haddr hlt hbusy hop =>
    simp [Balanced, releaseMgr, freeLtabMgr, packetKey, pack, Frame.of, worth]
  | app0Other l haddr hop hrank => simp [Balanced, releaseMgr]

theorem bcasts_inFlight (job : Job) (r r' : ℕ) (k : Key) :
    inFlight ((bcasts job r).map (pack r')) k = 0 := by
  simp [inFlight, bcasts, packetKey, pack, Frame.of]

/-- How a handler changes the pending list: it takes one request out or adds
one whose key is not in use. -/
inductive PendingStep (old : List Request) : List Request → Prop
  | same : PendingStep old old
  | erase (f : Request → Bool) : PendingStep old (old.eraseP f)
  | add (rqe : Request)
      (h : awaited rqe.reqop = true → findPendingReq old rqe.reqop rqe.xidseq = none) :
      PendingStep old (old ++ [rqe])

theorem mqeOutcome_pendingStep {job : Job} {v : View} {mqe : Mqe} {m : Mgr} {gt : ℕ → Gtab}
    {out : List Post} (h : MqeOutcome job v mqe m gt out) :
    PendingStep v.mgr.rpending m.rpending := by
  cases h with
  | createOk attrs dispIdx arg n gidx xidseq hb hdisp hroom hfree hlt hxid hd =>
    exact .add _ fun _ => hxid
  | joinWait thread n hb h hdet hz hw =>
    exact .add _ fun hc => by simp [joinwaitRequest, awaited, forwarded] at hc
  | detachWait => exact .erase _
  | terminatedJoined => exact .erase _
  | terminatedDetachedJoined => exact .erase _
  | startedOk => exact .erase _
  | startedErr => exact .erase _
  | reply => exact .erase _
  | _ => exact .same

theorem reqOutcome_pendingStep {job : Job} {v : View} {rqe : Request} {m : Mgr} {gt : ℕ → Gtab}
    {out : List Post} (h : ReqOutcome job v rqe m gt out) :
    PendingStep v.mgr.rpending m.rpending := by
  cases h with
  | forward l mqe xidseq haddr hlt hbusy hop hmqe hxid hd => exact .add _ fun _ => hxid
  | _ => exact .same

theorem PendingStep.countP_le_one {old new : List Request} (h : PendingStep old new) {op : Op}
    {seq : ℕ} (hop : awaited op = true) (hold : old.countP (pendingMatch op seq) ≤ 1) :
    new.countP (pendingMatch op seq) ≤ 1 := by
  cases h with
  | same => exact hold
  | erase f => exact (countP_eraseP_le _ _ _).trans hold
  | add rqe h =>
    by_cases hm : pendingMatch op seq rqe = true
    · obtain ⟨rfl, rfl⟩ : rqe.xidseq = seq ∧ rqe.reqop = op := by simpa [pendingMatch] using hm
      have hzero := countP_eq_zero_of_find (h hop)
      simp only [List.countP_append, hzero, List.countP_cons, List.countP_nil]
      split <;> omega
    · simpa [List.countP_append, hm] using hold

/-- The counts of tokens and of pending requests. They agree unless a rank
drains, and then tokens are only lost. -/
structure Matched (s : Sys) : Prop where
  le : ∀ k, awaited k.op = true → tokens s k ≤ pending s k
  eq : (∀ r, draindown s r = .init) → ∀ k, awaited k.op = true → tokens s k = pending s k
  one : ∀ k, awaited k.op = true → pending s k ≤ 1

section Change

variable {s s' : Sys} {r : ℕ} {m : Mgr} {gt : ℕ → Gtab} {rq : List Request}
  {net : List Packet} {posts : List Post}

theorem tokens_change (hc : Change s s' r m gt rq net posts) (k : Key) :
    tokens s' k + keptAt r (s.rk r).mgr.rpending k =
      inFlight net k + inFlight (posts.map (pack r)) k + kept (s.rk 0).mgr.rpending k +
        keptAt r m.rpending k := by
  unfold tokens keptAt
  rw [hc.net, inFlight_append]
  by_cases hr : r = 0
  · subst hr
    simp only [hc.mgr, if_true]
    omega
  · rw [hc.others 0 (fun h => hr h.symm)]
    simp [hr]

theorem pending_change (hc : Change s s' r m gt rq net posts) (k : Key) :
    pending s' k + pendingAt r (s.rk r).mgr.rpending k =
      pending s k + pendingAt r m.rpending k := by
  unfold pending pendingAt
  by_cases hr : r = k.rank
  · subst hr
    simp only [hc.mgr, if_true]
    omega
  · rw [hc.others k.rank (fun h => hr h.symm)]
    simp [hr]

end Change

theorem inFlight_sent_le (s : Sys) (r : ℕ) (out : List Post) (k : Key) :
    inFlight ((sent s r out).map (pack r)) k ≤ inFlight (out.map (pack r)) k := by
  unfold sent
  split
  · exact le_rfl
  · simp

/-- A step whose handler is balanced keeps the counts matched. -/
theorem Matched.change {s s' : Sys} {r : ℕ} {m : Mgr} {gt : ℕ → Gtab} {rq : List Request}
    {net : List Packet} {out : List Post} (h : Matched s)
    (hc : Change s s' r m gt rq net (sent s r out)) (input : Key → ℕ)
    (hnet : ∀ k, inFlight s.net k = inFlight net k + input k)
    (hbal : ∀ k, awaited k.op = true →
      Balanced r k (input k) (s.rk r).mgr.rpending m.rpending out)
    (hpend : PendingStep (s.rk r).mgr.rpending m.rpending)
    (hmono : draindown s' r = .init → draindown s r = .init) : Matched s' where
  le k hk := by
    have htok := tokens_change hc k
    have hpen := pending_change hc k
    have hb := hbal k hk
    have hle := h.le k hk
    have hsent := inFlight_sent_le s r out k
    have hin := hnet k
    unfold Balanced at hb
    unfold tokens at hle
    omega
  eq hinit k hk := by
    have hall : ∀ r', draindown s r' = .init := by
      intro r'
      by_cases hr : r' = r
      · subst hr
        exact hmono (hinit _)
      · have hother := hinit r'
        unfold draindown at hother ⊢
        rwa [hc.others r' hr] at hother
    have hsent : sent s r out = out := by simp [sent, hall r]
    have htok := tokens_change hc k
    have hpen := pending_change hc k
    have hb := hbal k hk
    have heq := h.eq hall k hk
    have hin := hnet k
    rw [hsent] at htok
    unfold Balanced at hb
    unfold tokens at heq
    omega
  one k hk := by
    have hone := h.one k hk
    unfold pending at hone ⊢
    by_cases hr : k.rank = r
    · rw [hr] at hone ⊢
      rw [hc.mgr]
      exact hpend.countP_le_one hk hone
    · rwa [hc.others k.rank hr]

/-- A frame that process_mqe drops carries no token. -/
theorem dropped_worthless {job : Job} {s : Sys} {p : Packet} {addr : ℕ} (hs : Sane s)
    (hwf : Wellformed s) (h : Matched s) (hp : p ∈ s.net)
    (hd : Dropped job (s.view p.dst) ⟨addr, p.src, p.frame⟩) (k : Key)
    (hk : awaited k.op = true) : worth (packetKey p) k = 0 := by
  have hfound : packetKey p = some k → findPendingReq (s.rk k.rank).mgr.rpending k.op k.xidseq ≠
      none := by
    intro hkey hnone
    have hzero : pending s k = 0 := countP_eq_zero_of_find hnone
    have hpos : 0 < inFlight s.net k := List.countP_pos_iff.mpr ⟨p, hp, by simp [hkey]⟩
    have hle := h.le k hk
    unfold tokens at hle
    omega
  unfold worth
  rw [if_neg]
  intro hkey
  cases hd with
  | runt hlen => exact absurd (hwf.frames p hp) hlen.ne
  | wrongRank hr h0 => exact hr ((hs.rank p.dst).trans (hwf.rank0 p hp h0))
  | unmatchedReply op hop hnone =>
    obtain rfl : _ = k := by simpa [packetKey_of_replyTo hop] using hkey
    exact hfound hkey hnone
  | unmatchedStarted e hb hnone =>
    simp only at hb
    obtain rfl : _ = k := by simpa [packetKey, hb] using hkey
    exact hfound hkey hnone
  | badTerminated thread fin hb hbad =>
    simp only at hb
    simp [packetKey, hb] at hkey
  | unknown code hb =>
    simp only at hb
    simp [packetKey, hb] at hkey

theorem inFlight_deliver {net net' : List Packet} {p : Packet}
    (h : Deliver Packet.chan net p net') (k : Key) :
    inFlight net k = inFlight net' k + worth (packetKey p) k := by
  simpa [inFlight, worth] using h.countP fun p => packetKey p == some k

theorem matched_init (job : Job) : Matched (sysInit job) := by
  have hpend : ∀ k, pending (sysInit job) k = 0 := by
    intro k
    simp [pending, sysInit_rpending]
  have htok : ∀ k, tokens (sysInit job) k = 0 := fun k => rfl
  exact ⟨fun k _ => by rw [htok]; omega, fun _ k _ => by rw [htok, hpend],
    fun k _ => by rw [hpend]; omega⟩

theorem matched_step {job : Job} {s s' : Sys} (hs : Sane s) (hwf : Wellformed s)
    (h : Matched s) {o : Option Packet} (hstep : StepCase job s s' o) : Matched s' := by
  have hshut (r : ℕ) (k : Key) (l : List Request) (r' : ℕ) :
      Balanced r k 0 l l (bcasts job r') := by
    simp [Balanced, bcasts_inFlight]
  cases hstep with
  | app r l lt gt rq hr hl hdd ho hc =>
    have hc' : Change s s' r ((s.rk r).mgr.setLtab l lt)
        (Function.update s.gtab ((s.rk r).mgr.ltab l).gtabIdx gt)
        ((s.rk r).dtq.mgrreqq ++ rq) s.net (sent s r []) := by
      simpa [sent] using hc
    exact h.change hc' (fun _ => 0) (fun _ => rfl) (fun k _ => by simp [Balanced, Mgr.setLtab])
      .same (fun hi => hdd.symm.trans hi)
  | recv p net addr m gt out hr hd hdd ho hc =>
    refine h.change hc (fun k => worth (packetKey p) k) (inFlight_deliver hd) (fun k hk => ?_)
      (mqeOutcome_pendingStep ho) (fun hi => hdd.symm.trans hi)
    rcases mqeOutcome_balanced ho hk (hwf.rank0 p hd.mem) (hwf.starts p hd.mem) with
      ⟨hdrop, rfl, rfl⟩ | hbal
    · rw [dropped_worthless hs hwf h hd.mem hdrop k hk]
      simp [Balanced, Sys.view]
    · exact hbal
  | recvShutdown p net hr hd hb hdd hc =>
    have hnone : packetKey p = none := by simp [packetKey, hb]
    refine h.change hc (fun _ => 0) (fun k => ?_) (fun k _ => hshut _ _ _ _) .same
      (fun hi => absurd hi hdd)
    simpa [hnone, worth] using inFlight_deliver hd k
  | req r rqe rest m gt out hr hq hdd ho hc =>
    have hreq := hwf.requests r rqe (by simp [hq])
    exact h.change hc (fun _ => 0) (fun _ => rfl)
      (fun k _ => reqOutcome_balanced r ho fun mqe hmqe => (hreq mqe hmqe).2.1)
      (reqOutcome_pendingStep ho) (fun hi => hdd.symm.trans hi)
  | reqShutdown r l rqe rest hr hq hop haddr hrank hdd hc =>
    exact h.change hc (fun _ => 0) (fun _ => rfl) (fun k _ => hshut _ _ _ _) .same
      (fun hi => absurd hi hdd)
  | shutdown hidle hdrain hdd hc =>
    exact h.change hc (fun _ => 0) (fun _ => rfl) (fun k _ => hshut _ _ _ _) .same
      (fun hi => absurd hi hdd)

theorem reachable_matched {job : Job} {s : Sys} (h : Reachable job s) : Matched s :=
  h.invariant (matched_init job) fun _ _ hr hi hs =>
    matched_step hr.sane (reachable_wellformed hr) hi hs

/-- While no rank drains, every CREATE, DETACH, CANCEL or JOIN on a pending list
has exactly one token, and every token belongs to exactly one such request. -/
theorem request_token_unique {job : Job} {s : Sys} (h : Reachable job s)
    (hdrain : ∀ r, r < job.wsize → draindown s r = .init) (S : ℕ) (op : Op) (x : ℕ)
    (hop : forwarded op = true) :
    tokens s ⟨S, op, x⟩ = pending s ⟨S, op, x⟩ ∧ pending s ⟨S, op, x⟩ ≤ 1 := by
  have hall : ∀ r, draindown s r = .init := by
    intro r
    by_cases hr : r < job.wsize
    · exact hdrain r hr
    · have hout := h.outside r (not_lt.mp hr)
      unfold draindown
      rw [hout]
      exact sysInit_draindown job r
  have hk : awaited op = true := by simp [awaited, hop]
  have hm := reachable_matched h
  exact ⟨hm.eq hall ⟨S, op, x⟩ hk, hm.one ⟨S, op, x⟩ hk⟩

theorem request_token_unique_forwarded :
    pending createForwarded ⟨0, .create, 4⟩ = 1 ∧ tokens createForwarded ⟨0, .create, 4⟩ = 1 := by
  have hdrain : ∀ r, r < twoRanks.wsize → draindown createForwarded r = .init := by
    intro r hr
    have hr' : r = 0 ∨ r = 1 := by
      change r < 2 at hr
      omega
    rcases hr' with rfl | rfl <;> rfl
  have hpend : pending createForwarded ⟨0, .create, 4⟩ = 1 := rfl
  have htoken := request_token_unique createForwarded_reachable hdrain 0 .create 4 rfl
  exact ⟨hpend, htoken.1.trans hpend⟩

end Dthread.RequestReply
