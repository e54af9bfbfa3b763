import CrickerOs.Kernel.Parking

namespace CrickerOs.Kernel

open Slots WakeHandshake Thread View

variable {v v' : View} {tid : Tid} {t t' : Thread} {n : EpId} {e : Ipc.Endpoint Tid} {R : Restriction}

structure Linked (v : View) : Prop where
  synced : ∀ {tid t}, v.th tid = some t → t.Synced
  senders : ∀ {n e tid}, v.ep n = some e → tid ∈ e.senders → ∃ t, v.th tid = some t ∧ t.Queued tid n
  receivers : ∀ {n e tid}, v.ep n = some e → tid ∈ e.receivers → ∃ t, v.th tid = some t ∧ t.Receives n
  distinct : ∀ {n e}, v.ep n = some e → e.senders.Nodup ∧ e.receivers.Nodup
  listed : ∀ {n tid t}, v.th tid = some t → t.Receives n → ∃ e, v.ep n = some e ∧ tid ∈ e.receivers

namespace Linked

lemma move (tid : Tid) (hv : Linked v) (hth : ∀ u, u ≠ tid → v'.th u = v.th u)
    (hs : ∀ t', v'.th tid = some t' → t'.Synced) (hq : ∀ n e', v'.ep n = some e' → ∃ e, v.ep n = some e ∧
      (∀ u, u ≠ tid → u ∈ e'.senders → u ∈ e.senders) ∧ (∀ u, u ≠ tid → u ∈ e'.receivers → u ∈ e.receivers))
    (hd : ∀ n e', v'.ep n = some e' → e'.senders.Nodup ∧ e'.receivers.Nodup)
    (hsend : ∀ n e', v'.ep n = some e' → tid ∈ e'.senders → ∃ t', v'.th tid = some t' ∧ t'.Queued tid n)
    (hrecv : ∀ n e', v'.ep n = some e' → tid ∈ e'.receivers → ∃ t', v'.th tid = some t' ∧ t'.Receives n)
    (hkeep : ∀ n e u, v.ep n = some e → u ∈ e.receivers → u ≠ tid → ∃ e', v'.ep n = some e' ∧ u ∈ e'.receivers)
    (hlist : ∀ n t', v'.th tid = some t' → t'.Receives n → ∃ e', v'.ep n = some e' ∧ tid ∈ e'.receivers) :
    Linked v' := by
  refine ⟨?_, ?_, ?_, fun h => hd _ _ h, ?_⟩
  · intro u t hu
    by_cases h : u = tid
    · exact hs t (h ▸ hu)
    · exact hv.synced (hth u h ▸ hu)
  · intro n e' u he hu
    by_cases h : u = tid
    · subst h
      exact hsend n e' he hu
    · obtain ⟨e, he, hsub, -⟩ := hq n e' he
      rw [hth u h]
      exact hv.senders he (hsub u h hu)
  · intro n e' u he hu
    by_cases h : u = tid
    · subst h
      exact hrecv n e' he hu
    · obtain ⟨e, he, -, hsub⟩ := hq n e' he
      rw [hth u h]
      exact hv.receivers he (hsub u h hu)
  · intro n u t hu hr
    by_cases h : u = tid
    · subst h
      exact hlist n t hu hr
    · obtain ⟨e, he, hmem⟩ := hv.listed (hth u h ▸ hu) hr
      exact hkeep n e u he hmem h

lemma offQueue (hv : Linked v) (ht : v.th tid = some t) (h : ∀ n, ¬t.Queued tid n) : v.OffQueue tid := by
  intro n e he hmem
  obtain ⟨u, hu, hq⟩ := hv.senders he hmem
  cases Option.mem_unique ht hu
  exact h n hq

lemma not_receiver (hv : Linked v) (ht : v.th tid = some t) (h : ¬t.Receives n) (he : v.ep n = some e) :
    tid ∉ e.receivers := by
  intro hmem
  obtain ⟨u, hu, hr⟩ := hv.receivers he hmem
  cases Option.mem_unique ht hu
  exact h hr

variable {rest : List Tid}

lemma front_sender (hv : Linked v) (he : v.ep n = some e) (hq : e.senders = tid :: rest)
    (ht : v.th tid = some t) : t.Queued tid n := by
  obtain ⟨u, hu, h⟩ := hv.senders he (show tid ∈ e.senders by simp [hq])
  cases Option.mem_unique ht hu
  exact h

lemma front_receiver (hv : Linked v) (he : v.ep n = some e) (hq : e.receivers = tid :: rest)
    (ht : v.th tid = some t) : t.Receives n := by
  obtain ⟨u, hu, h⟩ := hv.receivers he (show tid ∈ e.receivers by simp [hq])
  cases Option.mem_unique ht hu
  exact h

lemma move_off (hv : Linked v) (ht : v.th tid = some t) (hoff : v.OffQueue tid) (hn : ∀ n, ¬t.Receives n)
    (hth : ∀ u, u ≠ tid → v'.th u = v.th u) (hep : v'.ep = v.ep)
    (hs : ∀ t', v'.th tid = some t' → t'.Synced ∧ ∀ n, ¬t'.Receives n) : Linked v' := by
  refine hv.move tid hth (fun t' ht' => (hs t' ht').1) ?_ ?_ ?_ ?_ ?_ ?_ <;> rw [hep]
  · exact fun n e he => ⟨e, he, fun _ _ h => h, fun _ _ h => h⟩
  · exact fun n e he => hv.distinct he
  · exact fun n e he h => absurd h (hoff n e he)
  · exact fun n e he h => absurd h (hv.not_receiver ht (hn n) he)
  · exact fun n e u he hu _ => ⟨e, he, hu⟩
  · exact fun n t' ht' hr => absurd hr ((hs t' ht').2 n)

lemma set_off (hv : Linked v) (ht : v.th tid = some t) (hoff : v.OffQueue tid) (hn : ∀ n, ¬t.Receives n)
    (hs : t'.Synced) (hr : ∀ n, ¬t'.Receives n) : Linked (v.set tid t') := by
  refine hv.move_off ht hoff hn (fun u hu => th_set_of_ne hu) rfl fun u hu => ?_
  obtain rfl : t' = u := by simpa using hu
  exact ⟨hs, hr⟩

lemma set_free (hv : Linked v) (ht : v.th tid = some t) (hf : t.Free) (hs : t'.Synced) (hr : ∀ n, ¬t'.Receives n) :
    Linked (v.set tid t') :=
  hv.set_off ht (hv.offQueue ht fun _ => hf.not_queued) (fun _ => hf.not_receives) hs hr

lemma set_quiet (hv : Linked v) (ht : v.th tid = some t) (hq : t.Quiet t') (hs : t'.Synced) :
    Linked (v.set tid t') := by
  refine hv.move tid ?_ ?_ ?_ ?_ ?_ ?_ ?_ ?_ <;> simp only [th_set, ep_set]
  · intro u hu
    rw [if_neg hu]
  · simpa using hs
  · exact fun n e he => ⟨e, he, fun _ _ h => h, fun _ _ h => h⟩
  · exact fun n e he => hv.distinct he
  · intro n e he h
    obtain ⟨u, hu, hqu⟩ := hv.senders he h
    cases Option.mem_unique ht hu
    exact ⟨t', by simp, hq.queued.mpr hqu⟩
  · intro n e he h
    obtain ⟨u, hu, hru⟩ := hv.receivers he h
    cases Option.mem_unique ht hu
    exact ⟨t', by simp, hq.receives.mpr hru⟩
  · exact fun n e u he hu _ => ⟨e, he, hu⟩
  · intro n u hu hrecv
    obtain rfl : t' = u := by simpa using hu
    exact hv.listed ht (hq.receives.mp hrecv)

lemma requeue {e' : Ipc.Endpoint Tid} (hv : Linked v) (he : v.ep n = some e) (ht : v.th tid = some t)
    (hs : t'.Synced) (hsenders : ∀ u, u ≠ tid → (u ∈ e'.senders ↔ u ∈ e.senders))
    (hreceivers : ∀ u, u ≠ tid → (u ∈ e'.receivers ↔ u ∈ e.receivers))
    (hd : e'.senders.Nodup ∧ e'.receivers.Nodup) (hq : ∀ m, t.Queued tid m → m = n)
    (hr : ∀ m, t.Receives m → m = n) (hsend : tid ∈ e'.senders → t'.Queued tid n)
    (hrecv : tid ∈ e'.receivers → t'.Receives n) (hlist : ∀ m, t'.Receives m → m = n ∧ tid ∈ e'.receivers) :
    Linked ((v.queue n e').set tid t') := by
  refine hv.move tid ?_ ?_ ?_ ?_ ?_ ?_ ?_ ?_ <;> simp only [th_set, ep_set, th_queue, ep_queue]
  · intro u hu
    rw [if_neg hu]
  · simpa using hs
  · intro m f hm
    by_cases h : m = n
    · subst h
      obtain rfl : e' = f := by simpa using hm
      exact ⟨e, he, fun u hu => (hsenders u hu).mp, fun u hu => (hreceivers u hu).mp⟩
    · exact ⟨f, by simpa [h] using hm, fun _ _ h => h, fun _ _ h => h⟩
  · intro m f hm
    by_cases h : m = n
    · obtain rfl : e' = f := by simpa [h] using hm
      exact hd
    · exact hv.distinct (by simpa [h] using hm)
  · intro m f hm hmem
    refine ⟨t', by simp, ?_⟩
    by_cases h : m = n
    · obtain rfl : e' = f := by simpa [h] using hm
      exact h ▸ hsend hmem
    · obtain ⟨u, hu, hqu⟩ := hv.senders (by simpa [h] using hm) hmem
      cases Option.mem_unique ht hu
      exact absurd (hq m hqu) h
  · intro m f hm hmem
    refine ⟨t', by simp, ?_⟩
    by_cases h : m = n
    · obtain rfl : e' = f := by simpa [h] using hm
      exact h ▸ hrecv hmem
    · obtain ⟨u, hu, hru⟩ := hv.receivers (by simpa [h] using hm) hmem
      cases Option.mem_unique ht hu
      exact absurd (hr m hru) h
  · intro m f u hm hmem hu
    by_cases h : m = n
    · obtain rfl : e = f := by simpa [h, he] using hm
      exact ⟨e', by simp [h], (hreceivers u hu).mpr hmem⟩
    · exact ⟨f, by simpa [h] using hm, hmem⟩
  · intro m u hu hru
    obtain rfl : t' = u := by simpa using hu
    obtain ⟨rfl, hmem⟩ := hlist m hru
    exact ⟨e', by simp, hmem⟩

lemma pop_sender (hv : Linked v) (he : v.ep n = some e) (hq : e.senders = tid :: rest)
    (ht : v.th tid = some t) (hs : t'.Synced) (hr : ∀ m, ¬t'.Receives m) :
    Linked ((v.queue n { e with senders := rest }).set tid t') := by
  have hqueued := hv.front_sender he hq ht
  obtain ⟨hd, hd'⟩ := hv.distinct he
  rw [hq, List.nodup_cons] at hd
  have hnot := hv.not_receiver ht hqueued.not_receives he
  apply hv.requeue he ht hs
  · intro u hu
    simp [hq, hu]
  · intro u hu
    rfl
  · exact ⟨hd.2, hd'⟩
  · exact fun m => hqueued.unique
  · exact fun m h => absurd h hqueued.not_receives
  · exact fun h => absurd h hd.1
  · exact fun h => absurd h hnot
  · exact fun m h => absurd h (hr m)

lemma offQueue_pop (hv : Linked v) (he : v.ep n = some e) (hq : e.senders = tid :: rest) :
    (v.queue n { e with senders := rest }).OffQueue tid := by
  intro m f hm hmem
  obtain ⟨t, ht, hqueued⟩ := hv.senders he (show tid ∈ e.senders by simp [hq])
  by_cases h : m = n
  · obtain rfl : { e with senders := rest } = f := by simpa [h] using hm
    have hd := (hv.distinct he).1
    rw [hq, List.nodup_cons] at hd
    exact hd.1 hmem
  · obtain ⟨u, hu, hqueued'⟩ := hv.senders (by simpa [h] using hm) hmem
    cases Option.mem_unique ht hu
    exact h (hqueued.unique hqueued')

lemma pop_receiver (hv : Linked v) (he : v.ep n = some e) (hq : e.receivers = tid :: rest)
    (ht : v.th tid = some t) (hs : t'.Synced) (hr : ∀ m, ¬t'.Receives m) :
    Linked ((v.queue n { e with receivers := rest }).set tid t') := by
  have hrecv := hv.front_receiver he hq ht
  obtain ⟨hd, hd'⟩ := hv.distinct he
  rw [hq, List.nodup_cons] at hd'
  have hoff := hv.offQueue ht fun m h => h.not_receives hrecv
  apply hv.requeue he ht hs
  · intro u hu
    rfl
  · intro u hu
    simp [hq, hu]
  · exact ⟨hd, hd'.2⟩
  · exact fun m h => absurd hrecv h.not_receives
  · exact fun m => hrecv.unique
  · exact fun h => absurd h (hoff n e he)
  · exact fun h => absurd h hd'.1
  · exact fun m h => absurd h (hr m)

lemma push_sender (hv : Linked v) (he : v.ep n = some e) (ht : v.th tid = some t) (hoff : ∀ m, ¬t.Queued tid m)
    (hnot : ∀ m, ¬t.Receives m) (hs : t'.Synced) (hq : t'.Queued tid n) :
    Linked ((v.queue n { e with senders := e.senders ++ [tid] }).set tid t') := by
  obtain ⟨hd, hd'⟩ := hv.distinct he
  have hfree := hv.offQueue ht hoff n e he
  have hnone := hv.not_receiver ht (hnot n) he
  apply hv.requeue he ht hs
  · intro u hu
    simp [hu]
  · intro u hu
    rfl
  · exact ⟨List.nodup_append.mpr ⟨hd, by simp, by grind⟩, hd'⟩
  · exact fun m h => absurd h (hoff m)
  · exact fun m h => absurd h (hnot m)
  · exact fun _ => hq
  · exact fun h => absurd h hnone
  · exact fun m h => absurd h hq.not_receives

lemma park_sender {p : Prim} {w : EpId × WaitRole} (hv : Linked v) (he : v.ep n = some e) (ht : v.th tid = some t)
    (hr : t.handshake.state = .running) (hp : p.waitsOn = some w) (hf : t'.frame = .parked p)
    (hh : t'.handshake = t.handshake.park w) (hq : t'.Parked → t'.Queued tid n) :
    Linked ((v.queue n { e with senders := e.senders ++ [tid] }).set tid t') := by
  have hfree := free_of_running hr
  have hn := (hv.synced ht).not_pending (by simp [hr])
  exact hv.push_sender he ht (fun _ => hfree.not_queued) (fun _ => hfree.not_receives)
    ((hv.synced ht).park hr hp hf hh) (hq (by simp [Thread.Parked, hh, Handshake.park, hn]))

lemma push_receiver (hv : Linked v) (he : v.ep n = some e) (ht : v.th tid = some t) (hf : t.Free) (hs : t'.Synced)
    (hr : t'.Receives n) : Linked ((v.queue n { e with receivers := e.receivers ++ [tid] }).set tid t') := by
  obtain ⟨hd, hd'⟩ := hv.distinct he
  have hfree := hv.not_receiver ht hf.not_receives he
  have hoff := hv.offQueue ht (fun _ => hf.not_queued) n e he
  apply hv.requeue he ht hs
  · intro u hu
    rfl
  · intro u hu
    simp [hu]
  · exact ⟨hd, List.nodup_append.mpr ⟨hd', by simp, by grind⟩⟩
  · exact fun m h => absurd h hf.not_queued
  · exact fun m h => absurd h hf.not_receives
  · exact fun h => absurd h hoff
  · exact fun _ => hr
  · exact fun m h => ⟨hr.unique h, by simp⟩

lemma shrink {e' : Ipc.Endpoint Tid} (hv : Linked v) (he : v.ep n = some e) (hs : e'.senders.Sublist e.senders)
    (hr : e'.receivers = e.receivers) : Linked (v.queue n e') := by
  refine ⟨hv.synced, ?_, ?_, ?_, ?_⟩ <;> simp only [ep_queue, th_queue]
  · intro m f u hm hmem
    split at hm
    · cases hm
      subst m
      exact hv.senders he (hs.subset hmem)
    · exact hv.senders hm hmem
  · intro m f u hm hmem
    split at hm
    · cases hm
      subst m
      exact hv.receivers he (hr ▸ hmem)
    · exact hv.receivers hm hmem
  · intro m f hm
    split at hm
    · cases hm
      exact ⟨(hv.distinct he).1.sublist hs, hr ▸ (hv.distinct he).2⟩
    · exact hv.distinct hm
  · intro m u x hx hrecv
    obtain ⟨f, hf, hmem⟩ := hv.listed hx hrecv
    by_cases h : m = n
    · subst h
      cases Option.mem_unique he hf
      exact ⟨_, if_pos rfl, hr ▸ hmem⟩
    · exact ⟨f, by simpa [h] using hf, hmem⟩

lemma unqueue (hv : Linked v) (he : v.ep n = some e) (hr : e.receivers = []) : Linked (v.unqueue n) := by
  have hold : ∀ {m f}, (v.unqueue n).ep m = some f → v.ep m = some f := by
    intro m f hm
    by_cases h : m = n <;> simp_all
  refine ⟨hv.synced, fun hm => hv.senders (hold hm), fun hm => hv.receivers (hold hm),
    fun hm => hv.distinct (hold hm), ?_⟩
  intro m u x hx hrecv
  obtain ⟨f, hf, hmem⟩ := hv.listed hx hrecv
  have h : m ≠ n := by
    rintro rfl
    cases Option.mem_unique he hf
    simp [hr] at hmem
  exact ⟨f, by simpa [h] using hf, hmem⟩

lemma unset (hv : Linked v) (ht : v.th tid = some t) (hoff : v.OffQueue tid) (hr : ∀ n, ¬t.Receives n) :
    Linked (v.unset tid) :=
  hv.move_off ht hoff hr (fun u hu => by simp [hu]) rfl (by simp)

lemma log {ev : Event} (hv : Linked v) : Linked (v.log ev) :=
  ⟨hv.synced, hv.senders, hv.receivers, hv.distinct, hv.listed⟩

lemma arm {k : Thread → Bool} (hv : Linked v) :
    Linked { v with th := fun tid => (v.th tid).map fun t => { t with killed := k t } } := by
  have hquiet : ∀ t : Thread, t.Quiet { t with killed := k t } := fun t => by constructor <;> rfl
  refine ⟨?_, ?_, ?_, hv.distinct, ?_⟩ <;> simp only [Option.map_eq_some_iff]
  · rintro u _ ⟨t, ht, rfl⟩
    exact (hv.synced ht).congr rfl rfl rfl
  · intro n e u he hmem
    obtain ⟨t, ht, hq⟩ := hv.senders he hmem
    exact ⟨_, ⟨t, ht, rfl⟩, (hquiet t).queued.mpr hq⟩
  · intro n e u he hmem
    obtain ⟨t, ht, hr⟩ := hv.receivers he hmem
    exact ⟨_, ⟨t, ht, rfl⟩, (hquiet t).receives.mpr hr⟩
  · rintro n u _ ⟨t, ht, rfl⟩ hr
    exact hv.listed ht ((hquiet t).receives.mp hr)

lemma set_running (hv : Linked v) (ht : v.th tid = some t) (hr : t.handshake.state = .running)
    (hr' : t'.handshake.state = .running) (hp : t'.handshake.wakePending = t.handshake.wakePending)
    (hw : t'.handshake.waitOn = t.handshake.waitOn) : Linked (v.set tid t') :=
  hv.set_free ht (free_of_running hr) ((hv.synced ht).running hr hr' hp hw) fun _ =>
    (free_of_running hr').not_receives

lemma set_holding {cspace : CSpace} {slot : ℕ} {origin : CallId} (hv : Linked v) (ht : v.th tid = some t) :
    Linked (v.set tid (t.holding cspace slot origin)) :=
  hv.set_quiet ht (.holding ..) ((hv.synced ht).congr rfl rfl rfl)

lemma micro (hv : Linked v) (h : Micro R v v') : Linked v' := by
  cases h with
  | turn ht hh =>
    obtain ⟨hs, hq | ⟨hf, hf'⟩⟩ := (hv.synced ht).turn hh
    · exact hv.set_quiet ht hq hs
    · exact hv.set_free ht hf hs fun n => hf'.not_receives
  | arm => exact hv.arm
  | remove ht hd hoff =>
    refine hv.unset ht hoff ?_
    rintro n ⟨⟨hb, -⟩, -⟩
    simp [hb] at hd
  | act ht hr ha =>
    exact hv.set_free ht (free_of_running hr) ((hv.synced ht).act hr ha) fun _ => act_not_receives hr ha
  | complete ht hat => exact hv.set_running ht hat.1 hat.1 rfl rfl
  | pass ht hat =>
    apply log
    exact hv.set_running ht hat.1 hat.1 rfl rfl
  | leave ht hat hh =>
    refine (hv.set_running ht hat.1 ?_ ?_ ?_).log
    all_goals rcases hh with rfl | rfl <;> simp [hat.1]
  | note => exact hv.log
  | pending he => exact hv.shrink he (List.Sublist.refl _) rfl
  | deliver he hq ht =>
    have hs := (woken_served _).synced (hv.synced ht)
    exact hv.pop_receiver he hq ht (hs.congr rfl rfl rfl) fun m hr => (woken_served _).not_parked hr.1
  | handOver ht hat _ hne hr =>
    apply log
    exact (hv.set_holding hr).set_running ((th_set_of_ne hne.symm).trans ht) hat.1 hat.1 rfl rfl
  | callMeets ht hat hne hr =>
    apply log
    refine set_free (hv.set_holding hr) ((th_set_of_ne hne.symm).trans ht) (free_of_running hat.1) ?_ ?_
    · exact (hv.synced ht).park hat.1 rfl rfl rfl
    · rintro m ⟨-, p, hf, hw⟩
      cases hf
      simp at hw
  | parkSend ht hat he =>
    exact hv.park_sender he ht hat.1 rfl rfl rfl fun hw => .send hw rfl
  | parkSendCap ht hat he =>
    exact hv.park_sender he ht hat.1 rfl rfl rfl fun hw => .sendCap hw rfl rfl rfl
  | parkCall ht hat he =>
    exact hv.park_sender he ht hat.1 rfl rfl rfl fun hw => .call hw rfl rfl rfl
  | parkReceive ht hat hp he =>
    have hn := (hv.synced ht).not_pending (by simp [hat.1])
    exact hv.push_receiver he ht (free_of_running hat.1) ((hv.synced ht).park hat.1 hp rfl rfl)
      ⟨⟨rfl, hn⟩, _, rfl, hp⟩
  | parkCorpse ht hd hw hf he =>
    refine hv.push_sender he ht ?_ ?_ ?_ (.corpse hd rfl)
    · intro m hq
      cases hq <;> simp_all [Thread.Parked]
    · rintro m ⟨⟨hb, -⟩, -⟩
      simp [hd] at hb
    · have hn := (hv.synced ht).not_pending (by simp [hd])
      refine ⟨?_, ?_, ?_, ?_, ?_⟩ <;> simp [hd, hn, hf, (hv.synced ht).corpse hd]
  | take he hq ht htaken =>
    have hqueued := hv.front_sender he hq ht
    exact hv.pop_sender he hq ht ((hv.synced ht).taken htaken) fun m => taken_not_receives hqueued htaken
  | collect he hq ht ho hrep hne hr =>
    have hs := (woken_served _).synced (hv.synced ht)
    apply log
    refine set_holding (hv.pop_sender he hq ht (hs.congr rfl rfl rfl) ?_) ((th_set_of_ne hne).trans hr)
    exact fun m hr => (woken_served _).not_parked hr.1
  | collectCall he hq ht ho hne hr =>
    have hqueued := hv.front_sender he hq ht
    have hs := hv.synced ht
    apply log
    refine set_holding (hv.pop_sender he hq ht (hs.congr rfl rfl rfl) ?_) ((th_set_of_ne hne).trans hr)
    exact fun m hr => hqueued.not_receives hr
  | abortReceiver he hq ht =>
    have hs := (woken_aborted _).synced (hv.synced ht)
    exact hv.pop_receiver he hq ht hs fun m hr => (woken_aborted _).not_parked hr.1
  | removeEndpoint he _ hr => exact hv.unqueue he hr
  | unlink he => exact hv.shrink he List.filter_sublist rfl
  | reply ht hat hne hc hw hoff =>
    have hs := (woken_served _).synced (hv.synced hc)
    apply log
    refine set_running ?_ ((th_set_of_ne hne.symm).trans ht) hat.1 hat.1 rfl rfl
    refine hv.set_off hc hoff ?_ (hs.congr rfl rfl rfl) fun m hr => (woken_served _).not_parked hr.1
    intro m hr
    simp [(hv.synced hc).waitOn_of_receives hr] at hw

end Linked

lemma Micro.offQueue (h : Micro R v v') (ht : v.th tid = some t) (hp : t.Parked) (hoff : v.OffQueue tid) :
    v'.OffQueue tid := by
  have hne : ∀ {other u}, v.th other = some u → u.handshake.state ≠ .blocked → tid ≠ other := by
    rintro other u hu hb rfl
    cases Option.mem_unique ht hu
    exact hb hp.1
  cases h with
  | pending he | deliver he | parkReceive _ _ _ he | abortReceiver he => exact hoff.queue he id
  | parkSend hu hat he | parkSendCap hu hat he | parkCall hu hat he =>
    refine View.OffQueue.queue hoff he fun hmem => ?_
    simpa [hne hu (by simp [hat.1])] using hmem
  | parkCorpse hu hd _ _ he =>
    refine View.OffQueue.queue hoff he fun hmem => ?_
    simpa [hne hu (by simp [hd])] using hmem
  | take he hq | collect he hq | collectCall he hq =>
    refine View.OffQueue.queue hoff he fun hmem => ?_
    rw [hq]
    exact List.mem_cons_of_mem _ hmem
  | removeEndpoint =>
    intro m f hm
    rw [ep_unqueue] at hm
    split at hm
    · simp at hm
    · exact hoff m f hm
  | unlink he => exact hoff.queue he List.mem_of_mem_filter
  | _ => exact hoff

end CrickerOs.Kernel
