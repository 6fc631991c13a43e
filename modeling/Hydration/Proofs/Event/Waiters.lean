import Hydration.Proofs.Event.Reading

/-!
# Waiters and what is published

A **waiting room** is a bus together with its waiters.  Waiters start, run and leave in
any order, in between events are published and waiters are counted, and a waiter that
runs may be interrupted after every event that it takes from its inbox.

A waiter that stays is told the first event it accepts of those published since it
started (`Standing`): as long as it waits, its inbox holds the end of what has been
published, and it has read and passed over the rest.  The subscriptions that have not
ended are those of the waiters that are present (`Sound`), also where the bus has not
yet forgotten others.
-/

namespace Hydration

/-- A bus with its waiters. -/
structure WaitingRoom where
  bus : Bus := {}
  /-- The waiters that have started and have neither finished nor left. -/
  present : List Nat := []

namespace WaitingRoom

/-- What can happen in a waiting room. -/
inductive Happening where
  /-- A waiter starts. -/
  | start (accepts : Event → Bool)
  /-- A waiter takes one event from its inbox. -/
  | receive (number : Nat)
  /-- A waiter runs until it has to wait. -/
  | run (number : Nat)
  /-- A waiter is dropped. -/
  | leave (number : Nat)
  | publish (e : Event)
  /-- Somebody asks for the number of waiters. -/
  | count

/-- What becomes known when something happens. -/
inductive Notice where
  | nothing
  | started (number : Nat)
  | told (number : Nat) (delivery : Delivery)
  | counted (count : Nat)
deriving DecidableEq

/-- A waiter has read in its inbox; unless it goes on it has finished. -/
def tell (room : WaitingRoom) (number : Nat) (told : Option Delivery) (bus : Bus) :
    Notice × WaitingRoom :=
  match told with
  | none => (.nothing, { room with bus })
  | some .waiting => (.told number .waiting, { room with bus })
  | some delivery => (.told number delivery, ⟨bus, room.present.filter (· ≠ number)⟩)

/-- Something happens.  Who is not present does nothing. -/
def act (room : WaitingRoom) : Happening → Notice × WaitingRoom
  | .start accepts =>
    let (number, bus) := room.bus.listen accepts
    (.started number, ⟨bus, room.present ++ [number]⟩)
  | .receive number =>
    if number ∈ room.present then
      let (told, bus) := room.bus.receive number
      room.tell number told bus
    else (.nothing, room)
  | .run number =>
    if number ∈ room.present then
      let (told, bus) := room.bus.run number
      room.tell number (some told) bus
    else (.nothing, room)
  | .leave number =>
    if number ∈ room.present then
      (.nothing, ⟨room.bus.drop number, room.present.filter (· ≠ number)⟩)
    else (.nothing, room)
  | .publish e =>
    let (count, bus) := room.bus.dispatch e
    (.counted count, { room with bus })
  | .count =>
    let (count, bus) := room.bus.count
    (.counted count, { room with bus })

/-- One thing happens after the other. -/
def play (room : WaitingRoom) : List Happening → List Notice × WaitingRoom
  | [] => ([], room)
  | happening :: rest =>
    let (notice, room) := room.act happening
    let (notices, room) := room.play rest
    (notice :: notices, room)

/-- The waiting room after some happenings from the beginning. -/
def after (happenings : List Happening) : WaitingRoom :=
  (({} : WaitingRoom).play happenings).2

/-- What has become known since the beginning. -/
def notices (happenings : List Happening) : List Notice :=
  (({} : WaitingRoom).play happenings).1

/-- The events that are published, in order. -/
def published (happenings : List Happening) : List Event :=
  happenings.filterMap fun
    | .publish e => some e
    | _ => none

/-- The events that a waiter has received. -/
def receipts (number : Nat) (notices : List Notice) : List Event :=
  notices.filterMap fun
    | .told n (.received e) => if n = number then some e else none
    | _ => none

variable {room room' : WaitingRoom} {happening : Happening} {happenings rest : List Happening}
  {n number : Nat} {accepts : Event → Bool} {log received : List Event} {e : Event}

theorem tell_received (room : WaitingRoom) (number : Nat) (e : Event) (bus : Bus) :
    room.tell number (some (.received e)) bus =
      (.told number (.received e), ⟨bus, room.present.filter (· ≠ number)⟩) :=
  rfl

theorem play_cons (room : WaitingRoom) (happening : Happening) (rest : List Happening) :
    room.play (happening :: rest) =
      ((room.act happening).1 :: ((room.act happening).2.play rest).1,
        ((room.act happening).2.play rest).2) :=
  rfl

theorem play_append (room : WaitingRoom) (happenings rest : List Happening) :
    room.play (happenings ++ rest) =
      ((room.play happenings).1 ++ ((room.play happenings).2.play rest).1,
        ((room.play happenings).2.play rest).2) := by
  induction happenings generalizing room with
  | nil => rfl
  | cons happening happenings ih =>
    rw [List.cons_append, play_cons, ih, play_cons, List.cons_append]

/-! ## Who is present -/

/-- The subscriptions that have not ended are those of the waiters that are present, and their
numbers increase. -/
structure Sound (room : WaitingRoom) : Prop where
  numbered : room.bus.Numbered
  live : room.bus.live = room.present
  increasing : room.present.Pairwise (· < ·)

theorem Sound.lt_next (h : room.Sound) (hn : n ∈ room.present) : n < room.bus.next :=
  Bus.live_lt h.numbered (h.live ▸ hn)

theorem Sound.exists_subscription (h : room.Sound) (hn : n ∈ room.present) :
    ∃ sub, room.bus.find? n = some sub :=
  Bus.mem_live.mp (h.live ▸ hn)

theorem Sound.drop (h : room.Sound) (number : Nat) :
    Sound ⟨room.bus.drop number, room.present.filter (· ≠ number)⟩ where
  numbered := h.numbered.drop
  live := by rw [Bus.live_drop, h.live]
  increasing := h.increasing.filter _

theorem Sound.tell (h : room.Sound) {sub : Subscription} {told : Option Delivery} {bus : Bus}
    (hreads : room.bus.Reads number sub told bus) : (room.tell number told bus).2.Sound := by
  cases hreads with
  | goesOn read inbox hinbox hread htold hbus =>
    have hsound : Sound { room with bus } :=
      ⟨hbus.numbered h.numbered, hbus.live.trans h.live, h.increasing⟩
    rcases htold with rfl | ⟨rfl, -⟩
    · exact hsound
    · exact hsound
  | receives read e inbox hinbox hread he => exact h.drop number

theorem Sound.act (h : room.Sound) (happening : Happening) : (room.act happening).2.Sound := by
  cases happening with
  | start accepts =>
    refine ⟨h.numbered.listen, ?_, ?_⟩
    · rw [WaitingRoom.act, Bus.live_listen, h.live]
      rfl
    · refine List.pairwise_append.mpr ⟨h.increasing, List.pairwise_singleton _ _, ?_⟩
      intro n hn m hm
      rw [List.mem_singleton.mp hm]
      exact h.lt_next hn
  | receive number =>
    rw [WaitingRoom.act]
    split
    · next hn =>
      obtain ⟨sub, hsub⟩ := h.exists_subscription hn
      exact h.tell (Bus.reads_receive hsub)
    · exact h
  | run number =>
    rw [WaitingRoom.act]
    split
    · next hn =>
      obtain ⟨sub, hsub⟩ := h.exists_subscription hn
      exact h.tell (Bus.reads_run hsub)
    · exact h
  | leave number =>
    rw [WaitingRoom.act]
    split
    · exact h.drop number
    · exact h
  | publish e => exact ⟨h.numbered.publish e, (Bus.live_publish e).trans h.live, h.increasing⟩
  | count => exact ⟨h.numbered.prune, Bus.live_prune.trans h.live, h.increasing⟩

theorem Sound.play (h : room.Sound) (happenings : List Happening) :
    (room.play happenings).2.Sound := by
  induction happenings generalizing room with
  | nil => exact h
  | cons happening happenings ih => exact ih (h.act happening)

theorem sound_empty : Sound {} :=
  ⟨by simp [Bus.Numbered], rfl, .nil⟩

theorem sound_after (happenings : List Happening) : (after happenings).Sound :=
  sound_empty.play happenings

/-- **Whoever counts the waiters** counts those that are present. -/
theorem Sound.counted (h : room.Sound) (e : Event) :
    (room.act (.publish e)).1 = .counted room.present.length ∧
      (room.act .count).1 = .counted room.present.length := by
  rw [← h.live, Bus.length_live]
  refine ⟨?_, rfl⟩
  rw [WaitingRoom.act, Bus.dispatch, Bus.publish]
  simp only [List.length_map]

/-- No waiter is told that nothing can come any more. -/
theorem Sound.not_closed (h : room.Sound) (happening : Happening) (number : Nat) :
    (room.act happening).1 ≠ .told number .closed := by
  have htell : ∀ (m : Nat) (sub : Subscription) (told : Option Delivery) (bus : Bus),
      room.bus.Reads m sub told bus → (room.tell m told bus).1 ≠ .told number .closed := by
    intro m sub told bus hreads
    cases hreads with
    | goesOn read inbox hinbox hread htold hbus =>
      rcases htold with rfl | ⟨rfl, -⟩
      · exact nofun
      · exact nofun
    | receives read e inbox hinbox hread he => exact nofun
  cases happening with
  | receive m =>
    rw [WaitingRoom.act]
    split
    · next hm =>
      obtain ⟨sub, hsub⟩ := h.exists_subscription hm
      exact htell m sub _ _ (Bus.reads_receive hsub)
    · exact nofun
  | run m =>
    rw [WaitingRoom.act]
    split
    · next hm =>
      obtain ⟨sub, hsub⟩ := h.exists_subscription hm
      exact htell m sub _ _ (Bus.reads_run hsub)
    · exact nofun
  | leave m =>
    rw [WaitingRoom.act]
    split
    · exact nofun
    · exact nofun
  | start accepts => exact nofun
  | publish e => exact nofun
  | count => exact nofun

theorem Sound.not_closed_play (h : room.Sound) (happenings : List Happening) (number : Nat) :
    .told number .closed ∉ (room.play happenings).1 := by
  induction happenings generalizing room with
  | nil => exact List.not_mem_nil
  | cons happening happenings ih =>
    rw [play_cons, List.mem_cons, not_or]
    exact ⟨(h.not_closed happening number).symm, ih (h.act happening)⟩

/-! ## What a waiter is told -/

/-- **How it stands with a waiter** that started when nothing of `log` had been published and has
not been dropped: it has read the beginning of the log and passed over it, and the rest lies in
its inbox; or it has received the first event of the log that it accepts. -/
inductive Standing (room : WaitingRoom) (n : Nat) (accepts : Event → Bool)
    (log received : List Event) : Prop
  | waits (read inbox : List Event) (hpresent : n ∈ room.present)
      (hsub : room.bus.find? n = some ⟨n, accepts, inbox, false⟩)
      (hlog : log = read ++ inbox) (hread : ∀ e ∈ read, accepts e = false)
      (hreceived : received = [])
  | finished (e : Event) (hgone : n ∉ room.present) (hold : n < room.bus.next)
      (hlog : log.find? accepts = some e) (hreceived : received = [e])

/-- What happens to others leaves a waiter as it is. -/
theorem Standing.congr (h : Standing room n accepts log received)
    (hfind : room'.bus.find? n = room.bus.find? n)
    (hpresent : n ∈ room'.present ↔ n ∈ room.present) (hnext : room.bus.next ≤ room'.bus.next) :
    Standing room' n accepts log received := by
  cases h with
  | waits read inbox hn hsub hlog hread hreceived =>
    exact .waits read inbox (hpresent.mpr hn) (hfind.trans hsub) hlog hread hreceived
  | finished e hgone hold hlog hreceived =>
    exact .finished e (fun hn => hgone (hpresent.mp hn)) (Nat.lt_of_lt_of_le hold hnext) hlog
      hreceived

theorem mem_filter_ne (hne : n ≠ number) (present : List Nat) :
    n ∈ present.filter (· ≠ number) ↔ n ∈ present := by
  simp [hne]

theorem Standing.tell_other (h : Standing room n accepts log received) (hne : n ≠ number)
    {sub : Subscription} {told : Option Delivery} {bus : Bus}
    (hreads : room.bus.Reads number sub told bus) :
    Standing (room.tell number told bus).2 n accepts log
      (received ++ receipts n [(room.tell number told bus).1]) := by
  cases hreads with
  | goesOn read inbox hinbox hread htold hbus =>
    have hstanding : Standing { room with bus } n accepts log received :=
      h.congr (hbus.others n hne) Iff.rfl (Nat.le_of_eq hbus.next.symm)
    rcases htold with rfl | ⟨rfl, -⟩
    · rwa [show receipts n _ = [] from rfl, List.append_nil]
    · rwa [show receipts n _ = [] from rfl, List.append_nil]
  | receives read e inbox hinbox hread he =>
    have hnone : receipts n [.told number (.received e)] = [] := by
      simp [receipts, Ne.symm hne]
    rw [tell_received, hnone, List.append_nil]
    exact h.congr (Bus.find?_drop hne) (mem_filter_ne hne _) (Nat.le_refl _)

theorem Standing.tell_self {inbox : List Event} {read : List Event} (hsound : room.Sound)
    (hpresent : n ∈ room.present) (hsub : room.bus.find? n = some ⟨n, accepts, inbox, false⟩)
    (hread : ∀ e ∈ read, accepts e = false) {told : Option Delivery} {bus : Bus}
    (hreads : room.bus.Reads n ⟨n, accepts, inbox, false⟩ told bus) :
    Standing (room.tell n told bus).2 n accepts (read ++ inbox)
      (receipts n [(room.tell n told bus).1]) := by
  have hpassed : ∀ read', (∀ e ∈ read', accepts e = false) →
      ∀ e ∈ read ++ read', accepts e = false := by
    intro read' hread' e he
    rcases List.mem_append.mp he with he | he
    · exact hread e he
    · exact hread' e he
  cases hreads with
  | goesOn read' inbox' hinbox hread' htold hbus =>
    have hstanding : Standing { room with bus } n accepts (read ++ inbox) [] := by
      refine .waits (read ++ read') inbox' hpresent ?_ ?_ (hpassed read' hread') rfl
      · rw [hbus.self, hsub]
        rfl
      · rw [List.append_assoc, ← hinbox]
    rcases htold with rfl | ⟨rfl, -⟩
    · exact hstanding
    · exact hstanding
  | receives read' e inbox' hinbox hread' he =>
    have hfirst : (read ++ inbox).find? accepts = some e := by
      rw [show inbox = read' ++ e :: inbox' from hinbox, ← List.append_assoc,
        List.find?_eq_some_iff_append]
      refine ⟨he, read ++ read', inbox', rfl, fun e' he' => ?_⟩
      rw [hpassed read' hread' e' he']
      rfl
    have hone : receipts n [.told n (.received e)] = [e] := by
      simp [receipts]
    rw [tell_received, hone]
    exact .finished e (by simp) (hsound.lt_next hpresent) hfirst rfl

/-- A waiter that is present reads in its inbox. -/
theorem Standing.tell (h : Standing room n accepts log received) (hsound : room.Sound)
    (hnumber : number ∈ room.present) {told : Option Delivery} {bus : Bus}
    (hreads : ∀ sub, room.bus.find? number = some sub → room.bus.Reads number sub told bus) :
    Standing (room.tell number told bus).2 n accepts log
      (received ++ receipts n [(room.tell number told bus).1]) := by
  by_cases hne : n = number
  · subst hne
    cases h with
    | waits read inbox hpresent hsub hlog hread hreceived =>
      rw [hlog, hreceived, List.nil_append]
      exact .tell_self hsound hpresent hsub hread (hreads _ hsub)
    | finished e hgone hold hlog hreceived => exact absurd hnumber hgone
  · obtain ⟨sub, hsub⟩ := hsound.exists_subscription hnumber
    exact h.tell_other hne (hreads sub hsub)

/-- What is published reaches a waiter, or comes too late for it. -/
theorem Standing.publish (h : Standing room n accepts log received) (e : Event) :
    Standing { room with bus := room.bus.publish e } n accepts (log ++ [e]) received := by
  cases h with
  | waits read inbox hpresent hsub hlog hread hreceived =>
    refine .waits read (inbox ++ [e]) hpresent ?_ ?_ hread hreceived
    · rw [Bus.find?_publish, hsub]
      rfl
    · rw [hlog, List.append_assoc]
  | finished e' hgone hold hlog hreceived =>
    refine .finished e' hgone hold ?_ hreceived
    rw [List.find?_append, hlog]
    rfl

/-- **A step**: whatever happens, unless the waiter is dropped. -/
theorem Standing.act (h : Standing room n accepts log received) (hsound : room.Sound)
    (happening : Happening) (hstays : happening ≠ .leave n) :
    Standing (room.act happening).2 n accepts (log ++ published [happening])
      (received ++ receipts n [(room.act happening).1]) := by
  cases happening with
  | start accepts' =>
    rw [show published _ = [] from rfl, show receipts n _ = [] from rfl, List.append_nil,
      List.append_nil]
    -- The number of a waiter that starts is new.
    have hne : n ≠ room.bus.next := by
      cases h with
      | waits read inbox hpresent => exact Nat.ne_of_lt (hsound.lt_next hpresent)
      | finished e hgone hold => exact Nat.ne_of_lt hold
    exact h.congr (Bus.find?_listen_of_ne hne) (by simp [WaitingRoom.act, Bus.listen, hne])
      (Nat.le_succ _)
  | receive number =>
    rw [show published _ = [] from rfl, List.append_nil, WaitingRoom.act]
    split
    · next hnumber => exact h.tell hsound hnumber fun sub => Bus.reads_receive
    · rwa [show receipts n _ = [] from rfl, List.append_nil]
  | run number =>
    rw [show published _ = [] from rfl, List.append_nil, WaitingRoom.act]
    split
    · next hnumber => exact h.tell hsound hnumber fun sub => Bus.reads_run
    · rwa [show receipts n _ = [] from rfl, List.append_nil]
  | leave number =>
    have hne : n ≠ number := fun h => hstays (by rw [h])
    rw [show published _ = [] from rfl, List.append_nil, WaitingRoom.act]
    split
    · rw [show receipts n _ = [] from rfl, List.append_nil]
      exact h.congr (Bus.find?_drop hne) (mem_filter_ne hne _) (Nat.le_refl _)
    · rwa [show receipts n _ = [] from rfl, List.append_nil]
  | publish e =>
    rw [show receipts n _ = [] from rfl, List.append_nil]
    exact h.publish e
  | count =>
    rw [show published _ = [] from rfl, show receipts n _ = [] from rfl, List.append_nil,
      List.append_nil]
    exact h.congr Bus.find?_prune Iff.rfl (Nat.le_refl _)

theorem published_cons (happening : Happening) (rest : List Happening) :
    published (happening :: rest) = published [happening] ++ published rest :=
  List.filterMap_append (l := [happening])

theorem receipts_append (n : Nat) (notices rest : List Notice) :
    receipts n (notices ++ rest) = receipts n notices ++ receipts n rest :=
  List.filterMap_append

theorem receipts_cons (n : Nat) (notice : Notice) (rest : List Notice) :
    receipts n (notice :: rest) = receipts n [notice] ++ receipts n rest :=
  receipts_append n [notice] rest

/-- **A run**: it stands with a waiter as what has been published since it started says. -/
theorem Standing.play (h : Standing room n accepts log received) (hsound : room.Sound)
    (happenings : List Happening) (hstays : .leave n ∉ happenings) :
    Standing (room.play happenings).2 n accepts (log ++ published happenings)
      (received ++ receipts n (room.play happenings).1) := by
  induction happenings generalizing room log received with
  | nil =>
    rw [show published [] = [] from rfl, List.append_nil,
      show receipts n _ = [] from rfl, List.append_nil]
    exact h
  | cons happening happenings ih =>
    have hhere : happening ≠ .leave n := fun h => hstays (h ▸ List.mem_cons_self)
    have hrest : .leave n ∉ happenings := fun h => hstays (List.mem_cons_of_mem _ h)
    have hstep := h.act hsound happening hhere
    have hrun := ih hstep (hsound.act happening) hrest
    rw [play_cons, published_cons, receipts_cons, ← List.append_assoc, ← List.append_assoc]
    exact hrun

/-- A waiter has just started. -/
theorem Sound.standing_start (h : room.Sound) (accepts : Event → Bool) :
    Standing (room.act (.start accepts)).2 room.bus.next accepts [] [] :=
  .waits [] [] (List.mem_append_right _ List.mem_cons_self)
    (Bus.find?_listen_next accepts h.numbered) rfl (by simp) rfl

/-- A waiter that starts and stays, after everything that has happened since. -/
theorem Sound.standing_play (h : room.Sound) (accepts : Event → Bool) (later : List Happening)
    (hstays : .leave room.bus.next ∉ later) :
    Standing (room.play (.start accepts :: later)).2 room.bus.next accepts (published later)
      (receipts room.bus.next (room.play (.start accepts :: later)).1) :=
  (h.standing_start accepts).play (h.act (.start accepts)) later hstays

/-- A waiter that has run and is still present has read all of its inbox. -/
theorem Sound.inbox_run (h : room.Sound) (hn : n ∈ (room.act (.run n)).2.present) :
    ∃ sub, (room.act (.run n)).2.bus.find? n = some sub ∧ sub.inbox = [] := by
  rw [WaitingRoom.act] at hn ⊢
  split at hn
  · next hpresent =>
    obtain ⟨sub, hsub⟩ := h.exists_subscription hpresent
    have hreads := Bus.reads_run hsub
    rw [if_pos hpresent]
    dsimp only at hn ⊢
    generalize (room.bus.run n).1 = told at hn hreads ⊢
    generalize (room.bus.run n).2 = bus at hn hreads ⊢
    cases hreads with
    | goesOn read inbox hinbox hread htold hbus =>
      rcases htold with htold | ⟨htold, rfl⟩
      · cases htold
      · cases htold
        refine ⟨{ sub with inbox := [] }, ?_, rfl⟩
        rw [WaitingRoom.tell, hbus.self, hsub, Option.map_some]
    | receives read e inbox => exact absurd hn (by simp [tell_received])
  · next hpresent => exact absurd hn hpresent

/-- **A waiter that has run until it waits** has received the first event that it accepts. -/
theorem Standing.run (h : Standing room n accepts log received) (hsound : room.Sound) :
    received ++ receipts n [(room.act (.run n)).1] = (log.find? accepts).toList ∧
      (n ∈ (room.act (.run n)).2.present ↔ ∀ e ∈ log, accepts e = false) := by
  have hafter := h.act hsound (.run n) nofun
  rw [show published _ = [] from rfl, List.append_nil] at hafter
  cases hafter with
  | waits read inbox hpresent hsub hlog hread hreceived =>
    obtain ⟨sub, hsub', hempty⟩ := hsound.inbox_run hpresent
    have hinbox : inbox = [] := by
      rw [hsub] at hsub'
      rw [← hempty, ← Option.some.inj hsub']
    rw [hinbox, List.append_nil] at hlog
    have hnone : log.find? accepts = none := by
      rw [hlog, List.find?_eq_none]
      simpa using hread
    rw [hreceived, hnone]
    exact ⟨rfl, iff_of_true hpresent (hlog ▸ hread)⟩
  | finished e hgone hold hlog hreceived =>
    rw [hreceived, hlog]
    refine ⟨rfl, iff_of_false hgone fun hall => ?_⟩
    have he := hall e (List.mem_of_find?_eq_some hlog)
    rw [List.find?_some hlog] at he
    cases he

end WaitingRoom

end Hydration
