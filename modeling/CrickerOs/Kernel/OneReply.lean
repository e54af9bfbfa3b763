import CrickerOs.Kernel.Steps

namespace CrickerOs.Kernel

open Slots WakeHandshake Library

variable {T E : ℕ} {s s' : Scheduler T E}

structure OneReply (s : Scheduler T E) : Prop where
  returned : ∀ {before call ep m0 m1 words}, (.returned call (.call ep m0 m1) (some words) :: before) <:+ s.trace →
    ∃ reply origin w0 w1, .replied reply call origin w0 w1 ∈ before ∧ words = [w0, w1]
  collected : ∀ {before reply call origin w0 w1}, (.replied reply call origin w0 w1 :: before) <:+ s.trace →
    origin = call ∧ ∃ receipt, receipt.tid = reply.tid ∧ .collected call receipt ∈ before
  once : ∀ {before reply call origin w0 w1}, (.replied reply call origin w0 w1 :: before) <:+ s.trace →
    ∀ {r k o x y}, .replied r k o x y ∈ before → r ≠ reply ∧ k ≠ call
  parked : ∀ {tid t caller m0 m1 slot s'}, s.running tid = some t → t.frame = .calling (.reply caller m0 m1 slot) →
    s.step (.enter tid) = some s' → ∀ {other u ep role}, s.threads.get other = some u →
      u.handshake.waitOn = some (ep, role) → role ≠ .reply → s'.threads.get other = some u

lemma ipcReply_parked {other caller : Tid} {u : Thread} {ep : EpId} {role : WaitRole} {m0 m1 : ℕ}
    {reply origin : CallId} (hu : s.threads.get other = some u) (hw : u.handshake.waitOn = some (ep, role))
    (hrole : role ≠ .reply) : (s.ipcReply caller m0 m1 reply origin).threads.get other = some u := by
  rw [Scheduler.ipcReply]
  split
  · exact hu
  · rename_i t ht
    split
    · rename_i n hreply
      have hne : other ≠ caller := by
        rintro rfl
        cases Option.mem_unique hu ht
        simp_all
      have hview := view_deliver (m := ⟨m0, m1, 0, 0, 0⟩)
        (show (s.record (.replied reply (s.callOf caller) origin m0 m1)).view.th caller = some t from ht)
      rw [← th_view, hview, View.th_set_of_ne hne]
      exact hu
    · exact hu

theorem replies_answer_one_call (h : Reach Scheduler.step always Scheduler.Start s) : OneReply s := by
  obtain ⟨hv, hr⟩ := reach_linked h
  have hj : Justified RepliedOnce s.trace := hr.explained
  refine ⟨fun hs => hj.of_suffix hs, fun hs => ?_, fun hs => ?_, ?_⟩
  · exact ⟨(hj.of_suffix hs).1, (hj.of_suffix hs).2.1⟩
  · exact (hj.of_suffix hs).2.2 _ _ _ _ _
  · intro tid t caller m0 m1 slot s' hrun hf hstep other u ep role hu hw hrole
    obtain ⟨ht, hstate⟩ := running_eq_some hrun
    simp only [Scheduler.step, Scheduler.enter, hrun, hf, Scheduler.runPrim, Option.some.injEq] at hstep
    subst hstep
    have hne : other ≠ tid := by
      rintro rfl
      cases Option.mem_unique hu ht
      simp [(hv.synced ht).awake (by simp [hstate]) (by simp [hstate])] at hw
    rw [Scheduler.setFrame, Scheduler.modifyThread, Table.get_modify, Function.update_of_ne hne]
    exact ipcReply_parked hu hw hrole

def Thread.idle (caps : List Cap) (page : ℕ) (faultEp : Option EpId) : Thread where
  handshake := .onCpuNow
  cspace := ⟨fun i => caps[i.val]?⟩
  mailbox := ⟨0, 0, 0, 0, 0⟩
  outgoingCap := none
  killed := false
  faultEp := faultEp
  faultMsg := none
  page := page
  tcbRegion := none
  space := none
  frame := .user
  seq := 0
  origins := fun _ => ⟨0, 0⟩
  outgoingOrigin := ⟨0, 0⟩

lemma Thread.fresh_idle {caps : List Cap} {page : ℕ} {faultEp : Option EpId}
    (h : ∀ cap ∈ caps, cap.object.isReply = false) : (Thread.idle caps page faultEp).Fresh := by
  refine ⟨.inl rfl, rfl, rfl, fun slot cap hl => ?_⟩
  simp only [Capability.CSpace.lookup, idle] at hl
  split at hl
  · exact h cap (List.mem_of_getElem? hl)
  · simp at hl

def Scheduler.booted (threads : Fin T → Thread) (pages : Fin E → ℕ) (ht : 0 < T ∧ T ≤ 2 ^ 32 - 1)
    (he : 0 < E ∧ E ≤ 2 ^ 32 - 1) : Scheduler T E where
  threads := ⟨fun i => some (threads i), fun _ => 0, T, by simp, ht⟩
  endpoints := ⟨fun i => some ⟨pages i, .new⟩, fun _ => 0, E, by simp, he⟩
  irqRoute := fun _ => none
  trace := []

lemma Scheduler.start_booted {threads : Fin T → Thread} {pages : Fin E → ℕ} {ht : 0 < T ∧ T ≤ 2 ^ 32 - 1}
    {he : 0 < E ∧ E ≤ 2 ^ 32 - 1} (h : ∀ i, (threads i).Fresh) : (Scheduler.booted threads pages ht he).Start := by
  refine ⟨fun tid t hget => ?_, fun ep e hget => ?_, rfl⟩
  · obtain ⟨i, -, hi⟩ := Table.get_eq_some_iff.mp hget
    cases hi
    exact h i
  · obtain ⟨p, hp, rfl⟩ := Option.map_eq_some_iff.mp hget
    obtain ⟨i, -, hi⟩ := Table.get_eq_some_iff.mp hp
    cases hi
    exact ⟨rfl, rfl⟩

def trio : Scheduler 3 2 :=
  .booted ![.idle [⟨.endpoint 0, .all⟩, ⟨.endpoint 1, .all⟩, ⟨.frame 7, .all⟩] 1 (some 1),
    .idle [⟨.endpoint 0, .all⟩, ⟨.endpoint 1, .all⟩] 2 none,
    .idle [⟨.endpoint 0, .all⟩, ⟨.endpoint 1, .all⟩] 3 none]
    ![100, 200] (by decide) (by decide)

lemma start_trio : trio.Start := by
  refine Scheduler.start_booted fun i => ?_
  fin_cases i <;> exact Thread.fresh_idle (by simp [Object.isReply])

theorem replies_answer_one_call_in_trio : ∃ s, execute Scheduler.step always trio
    [.invoke 0 0 (.call 5 6), .enter 0, .invoke 1 0 .recvCap, .enter 1, .leave 1, .invoke 1 2 (.reply 7 8),
      .enter 1, .finishSwitch 0, .switchIn 0, .resume 0, .leave 0] = some s ∧
    .returned ⟨0, 1⟩ (.call 0 5 6) (some [7, 8]) ∈ s.trace ∧ OneReply s :=
  Reach.exists_execute start_trio (fun _ h _ => replies_answer_one_call h) (by decide +kernel)

end CrickerOs.Kernel
