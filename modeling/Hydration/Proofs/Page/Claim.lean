import Hydration.Proofs.Page.Idle
import Hydration.Proofs.Page.Operation

/-!
# The requirement and the module are awaited at once

An activation that has claimed its element waits for its requirement and for its module at once.
Each of them alone comes to something at some moment or never: the requirement when it is resumed at
every look at the page (`Claim.requirement`), the module when its answer is due (`Claim.download`).
The activation completes at the later moment when both succeed, it fails at the earlier failure,
that of the requirement if they fail at one moment, and else it waits (`awaitBoth`).

**Moments.**  Moment 0 is that of the claim, and moment `k` that of the `k`-th look at the page
after it, when the page settles.  Between two looks nothing that is waited for happens without
queueing the task, and the clock passes over no timer (`Ensues`), so no moment is missed.
-/

namespace Hydration

/-! ## Moments -/

/-- **The first moment** at which there is something, with what there is: `f` gives what there is
after some looks. -/
def firstAt {α β : Type} (f : List α → Option β) (looks : List α) : Option (Nat × β) :=
  (List.range (looks.length + 1)).findSome? fun k => (f (looks.take k)).map (k, ·)

section

variable {α β : Type} {f : List α → Option β} {looks : List α} {k : Nat} {b : β}

theorem firstAt_nil (f : List α → Option β) : firstAt f [] = (f []).map (0, ·) := by
  rw [firstAt, List.length_nil, Nat.zero_add, List.range_one, List.findSome?_singleton,
    List.take_nil]

/-- One more look gives something new if there has been nothing so far. -/
theorem firstAt_concat (f : List α → Option β) (looks : List α) (x : α) :
    firstAt f (looks ++ [x]) =
      (firstAt f looks).or ((f (looks ++ [x])).map (looks.length + 1, ·)) := by
  have hearlier : ∀ k ∈ List.range (looks.length + 1),
      ((f ((looks ++ [x]).take k)).map (k, ·)) = (f (looks.take k)).map (k, ·) := by
    intro k hk
    rw [List.take_append_of_le_length (Nat.le_of_lt_succ (List.mem_range.mp hk))]
  rw [firstAt, List.length_append, List.length_singleton, List.range_succ, List.findSome?_append,
    List.findSome?_singleton, List.take_of_length_le (by simp), firstAt]
  congr 1
  rw [← List.head?_filterMap, List.filterMap_congr hearlier, List.head?_filterMap]

/-- There is what has been found first. -/
theorem firstAt_eq (h : firstAt f looks = some (k, b)) : f (looks.take k) = some b := by
  obtain ⟨k', -, hb⟩ := List.exists_of_findSome?_eq_some h
  obtain ⟨b', hb', heq⟩ := Option.map_eq_some_iff.mp hb
  cases heq
  exact hb'

/-- Where there is something it has been found. -/
theorem exists_firstAt (h : f looks = some b) : ∃ k b', firstAt f looks = some (k, b') := by
  have hsome : (firstAt f looks).isSome := by
    rw [firstAt, List.findSome?_isSome_iff]
    refine ⟨looks.length, List.mem_range.mpr (Nat.lt_succ_self _), ?_⟩
    rw [List.take_length, h]
    rfl
  obtain ⟨⟨k, b'⟩, hk⟩ := Option.isSome_iff_exists.mp hsome
  exact ⟨k, b', hk⟩

theorem le_of_firstAt (h : firstAt f looks = some (k, b)) : k ≤ looks.length := by
  obtain ⟨k', hk', hb⟩ := List.exists_of_findSome?_eq_some h
  obtain ⟨b', -, heq⟩ := Option.map_eq_some_iff.mp hb
  cases heq
  exact Nat.le_of_lt_succ (List.mem_range.mp hk')

end

/-! ## Awaiting both -/

/-- **What comes of two things** that are awaited at once, each with the moment at which it comes to
something: it takes the later moment for both to succeed, and the earlier failure counts, the first
one's if they are at one moment. -/
def awaitBoth : Option (Nat × Except Failure Unit) → Option (Nat × Except Failure Unit) →
    Option (Nat × Except Failure Unit)
  | some (r, .ok ()), some (m, .ok ()) => some (max r m, .ok ())
  | some (r, .error e), some (m, .error f) =>
    if r ≤ m then some (r, .error e) else some (m, .error f)
  | some (r, .error e), _ => some (r, .error e)
  | _, some (m, .error f) => some (m, .error f)
  | _, _ => none

/-- What comes of two things at one moment. -/
def verdict : Option (Except Failure Unit) → Option (Except Failure Unit) →
    Option (Except Failure Unit)
  | some (.error e), _ => some (.error e)
  | _, some (.error f) => some (.error f)
  | some (.ok ()), some (.ok ()) => some (.ok ())
  | _, _ => none

section

variable {r m : Option (Except Failure Unit)} {r' m' : Option (Nat × Except Failure Unit)}
  {k n : Nat} {result : Except Failure Unit}

/-- Both come to what they do at one moment. -/
theorem awaitBoth_at (n : Nat) (r m : Option (Except Failure Unit)) :
    awaitBoth (r.map (n, ·)) (m.map (n, ·)) = (verdict r m).map (n, ·) := by
  rcases r with _ | e | ⟨⟨⟩⟩ <;> rcases m with _ | f | ⟨⟨⟩⟩ <;>
    simp [awaitBoth, verdict]

/-- **Nothing has come of both so far**: what comes of them at the next moment is what they come to
then, for one that has succeeded goes on to do so. -/
theorem awaitBoth_or (hnone : awaitBoth r' m' = none)
    (hr' : ∀ k x, r' = some (k, x) → k ≤ n ∧ r = some x)
    (hm' : ∀ k x, m' = some (k, x) → k ≤ n ∧ m = some x) :
    awaitBoth (r'.or (r.map (n, ·))) (m'.or (m.map (n, ·))) = (verdict r m).map (n, ·) := by
  rcases r' with _ | ⟨k, e | ⟨⟨⟩⟩⟩
  · rcases m' with _ | ⟨l, f | ⟨⟨⟩⟩⟩
    · exact awaitBoth_at n r m
    · cases hnone
    · obtain ⟨hl, rfl⟩ := hm' l _ rfl
      rcases r with _ | e | ⟨⟨⟩⟩ <;> simp [awaitBoth, verdict, hl]
  · rcases m' with _ | ⟨l, f | ⟨⟨⟩⟩⟩
    · cases hnone
    · rw [awaitBoth] at hnone
      split at hnone <;> cases hnone
    · cases hnone
  · rcases m' with _ | ⟨l, f | ⟨⟨⟩⟩⟩
    · obtain ⟨hk, rfl⟩ := hr' k _ rfl
      rcases m with _ | f | ⟨⟨⟩⟩ <;> simp [awaitBoth, verdict, hk]
    · cases hnone
    · cases hnone

/-- **What has come of both** does not change at later moments. -/
theorem awaitBoth_stable (h : awaitBoth r' m' = some (k, result))
    (hr' : ∀ l x, r' = some (l, x) → l < n) (hm' : ∀ l x, m' = some (l, x) → l < n) :
    awaitBoth (r'.or (r.map (n, ·))) (m'.or (m.map (n, ·))) = some (k, result) := by
  rcases r' with _ | ⟨i, e | ⟨⟨⟩⟩⟩
  · rcases m' with _ | ⟨j, f | ⟨⟨⟩⟩⟩
    · cases h
    · have hj := hm' j _ rfl
      rcases r with _ | e | ⟨⟨⟩⟩
      · exact h
      · simpa [awaitBoth, Nat.not_le.mpr hj] using h
      · exact h
    · cases h
  · have hi := hr' i _ rfl
    rcases m' with _ | ⟨j, f | ⟨⟨⟩⟩⟩
    · rcases m with _ | f | ⟨⟨⟩⟩
      · exact h
      · simpa [awaitBoth, Nat.le_of_lt hi] using h
      · exact h
    · exact h
    · exact h
  · rcases m' with _ | ⟨j, f | ⟨⟨⟩⟩⟩
    · cases h
    · exact h
    · exact h

/-- As long as nothing has come of both nothing comes of them. -/
theorem verdict_of_awaitBoth (h : awaitBoth r' m' = none)
    (hr : ∀ x, r = some x → ∃ k, r' = some (k, x))
    (hm : ∀ x, m = some x → ∃ k, m' = some (k, x)) : verdict r m = none := by
  rcases r with _ | e | ⟨⟨⟩⟩
  · rcases m with _ | f | ⟨⟨⟩⟩
    · rfl
    · obtain ⟨l, rfl⟩ := hm _ rfl
      rcases r' with _ | ⟨k, e | ⟨⟨⟩⟩⟩
      · cases h
      · rw [awaitBoth] at h
        split at h <;> cases h
      · cases h
    · rfl
  · obtain ⟨k, rfl⟩ := hr _ rfl
    rcases m' with _ | ⟨l, f | ⟨⟨⟩⟩⟩
    · cases h
    · rw [awaitBoth] at h
      split at h <;> cases h
    · cases h
  · obtain ⟨k, rfl⟩ := hr _ rfl
    rcases m with _ | f | ⟨⟨⟩⟩
    · rfl
    · obtain ⟨l, rfl⟩ := hm _ rfl
      cases h
    · obtain ⟨l, rfl⟩ := hm _ rfl
      cases h

/-- It takes both for both to succeed. -/
theorem awaitBoth_ok (h : awaitBoth r' m' = some (k, .ok ())) :
    ∃ i j, r' = some (i, .ok ()) ∧ m' = some (j, .ok ()) ∧ k = max i j := by
  rcases r' with _ | ⟨i, e | ⟨⟨⟩⟩⟩ <;> rcases m' with _ | ⟨j, f | ⟨⟨⟩⟩⟩
  case some.ok.some.ok =>
    cases h
    exact ⟨i, j, rfl, rfl, rfl⟩
  case some.error.some.error =>
    rw [awaitBoth] at h
    split at h <;> cases h
  all_goals cases h

/-- A failure is the earlier one, and the first one's if they are at one moment. -/
theorem awaitBoth_error {failure : Failure} (h : awaitBoth r' m' = some (k, .error failure)) :
    (r' = some (k, .error failure) ∧ ∀ j f, m' = some (j, .error f) → k ≤ j) ∨
      m' = some (k, .error failure) ∧ ∀ i e, r' = some (i, .error e) → k < i := by
  rcases r' with _ | ⟨i, e | ⟨⟨⟩⟩⟩
  · rcases m' with _ | ⟨j, f | ⟨⟨⟩⟩⟩
    · cases h
    · exact .inr ⟨h, by simp⟩
    · cases h
  · rcases m' with _ | ⟨j, f | ⟨⟨⟩⟩⟩
    · exact .inl ⟨h, by simp⟩
    · rw [awaitBoth] at h
      split at h
      · next hle =>
        cases h
        refine .inl ⟨rfl, fun j' f' heq => ?_⟩
        cases heq
        exact hle
      · next hlt =>
        cases h
        refine .inr ⟨rfl, fun i' e' heq => ?_⟩
        cases heq
        exact Nat.not_le.mp hlt
    · exact .inl ⟨h, by simp⟩
  · rcases m' with _ | ⟨j, f | ⟨⟨⟩⟩⟩
    · cases h
    · exact .inr ⟨h, by simp⟩
    · cases h

theorem le_of_awaitBoth (h : awaitBoth r' m' = some (k, result))
    (hr' : ∀ l x, r' = some (l, x) → l ≤ n) (hm' : ∀ l x, m' = some (l, x) → l ≤ n) : k ≤ n := by
  rw [awaitBoth.eq_def] at h
  split at h
  · cases h
    exact Nat.max_le.mpr ⟨hr' _ _ rfl, hm' _ _ rfl⟩
  · split at h
    · cases h
      exact hr' _ _ rfl
    · cases h
      exact hm' _ _ rfl
  · cases h
    exact hr' _ _ rfl
  · cases h
    exact hm' _ _ rfl
  · cases h

end

/-! ## What an activation waits for -/

/-- **What an activation waits for** that has claimed its element. -/
structure Claim where
  component : ComponentHandle
  name : String
  /-- What the text of the requirement is read as. -/
  parsed : Except ParseError Requirement
  /-- What the request for the module leads to. -/
  request : ModuleRequest
  strategies : StrategyTable
  /-- The document in which the element is claimed. -/
  document : Document
  /-- The surroundings in which the element is claimed. -/
  surroundings : Surroundings

/-- What a module's answer means to an activation. -/
def ModuleError.arrival {α : Type} (answer : Except ModuleError α) : Except Failure Unit :=
  (answer.map fun _ => ()).mapError .module

namespace Claim

variable (c : Claim)

/-- The time of the last of some looks. -/
def clock (looks : List Page) : Nat :=
  (looks.getLast?.map (·.surroundings.now)).getD c.surroundings.now

/-- The document at the last of some looks. -/
def documentAt (looks : List Page) : Document :=
  (looks.getLast?.map (·.document)).getD c.document

/-- The requirement, awaited on its own: it is started and looked at again at each look. -/
def evaluation (tree : Requirement) (looks : List Page) : Evaluation NamedWait :=
  (tree.run (Requirement.rules c.strategies c.component) c.surroundings
    (looks.map fun q _ => q.surroundings)).1

/-- What an evaluation has come to, if anything. -/
def resultOf (e : Evaluation NamedWait) : Option (Except Failure Unit) :=
  e.result?.map (·.mapError .requirement)

/-- **What the requirement alone has come to** after some looks. -/
def requirement (looks : List Page) : Option (Except Failure Unit) :=
  match c.parsed with
  | .error error => some (.error (.parse error))
  | .ok tree => resultOf (c.evaluation tree looks)

/-- What the module alone has come to at a time. -/
def downloadBy (now : Nat) : Option (Except Failure Unit) :=
  match c.request with
  | .settled result => some (ModuleError.arrival result)
  | .answered none _ => none
  | .answered (some delay) answer =>
    if c.surroundings.now + delay ≤ now then some (ModuleError.arrival answer) else none

/-- **What the module alone has come to** after some looks. -/
def download (looks : List Page) : Option (Except Failure Unit) :=
  c.downloadBy (c.clock looks)

/-- The time at which the module's answer is due, if ever. -/
def due? : Option Nat :=
  match c.request with
  | .settled _ => some c.surroundings.now
  | .answered delay _ => delay.map (c.surroundings.now + ·)

/-- **What the activation comes to**, with the moment. -/
def outcome (looks : List Page) : Option (Nat × Except Failure Unit) :=
  awaitBoth (firstAt c.requirement looks) (firstAt c.download looks)

variable {c} {now now' : Nat} {looks : List Page} {q : Page}

theorem clock_concat (looks : List Page) (q : Page) :
    c.clock (looks ++ [q]) = q.surroundings.now := by
  rw [clock, List.getLast?_concat]
  rfl

theorem documentAt_concat (looks : List Page) (q : Page) :
    c.documentAt (looks ++ [q]) = q.document := by
  rw [documentAt, List.getLast?_concat]
  rfl

theorem evaluation_concat (tree : Requirement) (looks : List Page) (q : Page) :
    c.evaluation tree (looks ++ [q]) = ((c.evaluation tree looks).resume
      (Requirement.rules c.strategies c.component) q.surroundings).1 := by
  rw [evaluation, List.map_append, List.map_singleton, Formula.run_concat]
  rfl

/-- What is known of the requirement stays so. -/
theorem requirement_concat {x : Except Failure Unit} (h : c.requirement looks = some x) :
    c.requirement (looks ++ [q]) = some x := by
  rw [requirement] at h ⊢
  split at h
  · exact h
  · next tree _ =>
    rw [evaluation_concat]
    generalize c.evaluation tree looks = e at h ⊢
    cases e with
    | succeeded => exact h
    | failed error => exact h
    | waiting wait => cases h
    | joining join operands => cases h

theorem downloadBy_mono {x : Except Failure Unit} (h : c.downloadBy now = some x)
    (hle : now ≤ now') : c.downloadBy now' = some x := by
  rw [downloadBy] at h ⊢
  split at h
  · exact h
  · cases h
  · split at h
    · next hdue => rwa [if_pos (Nat.le_trans hdue hle)]
    · cases h

/-! ## Turns -/

/-- **A download is at the stage** that the claim promises for a time. -/
inductive Fetches (c : Claim) (now : Nat) : Download → Prop where
  | arriving {ticket : Nat} {delay : Option Nat} {answer : Except ModuleError ComponentModule}
      (h : c.request = .answered delay answer) (hnone : c.downloadBy now = none) :
      Fetches c now (.arriving ticket (delay.map (c.surroundings.now + ·)) answer)
  | settled {result : Except ModuleError Bool}
      (h : c.downloadBy now = some (ModuleError.arrival result)) : Fetches c now (.settled result)

/-- **An element has been handed back** at some time, on a page with the elements of a document. -/
def HandedBack (el : ElementRef) (now : Nat) (d : Document) (status : TaskStatus) : Prop :=
  ∃ r : Page, r.surroundings.now = now ∧ r.document.skeleton = d.skeleton ∧
    status = .ended (.ok (r.handBack el).1)

theorem HandedBack.congr {el : ElementRef} {d d' : Document} {status : TaskStatus}
    (h : HandedBack el now d status) (hsame : d.skeleton = d'.skeleton) :
    HandedBack el now d' status := by
  obtain ⟨r, hnow, hskeleton, hstatus⟩ := h
  exact ⟨r, hnow, hskeleton.trans hsame, hstatus⟩

/-- **What a turn comes to** at some time in a document, where `e` is the evaluation of the
requirement after it. -/
def Answers (c : Claim) (now : Nat) (document : Document) (e : Evaluation NamedWait)
    (status : TaskStatus) : Prop :=
  match verdict (resultOf e) (c.downloadBy now) with
  | none => ∃ d, c.Fetches now d ∧ status = .awaiting c.component c.name e d
  | some (.ok ()) => HandedBack c.component.element now document status
  | some (.error failure) => status = .ended (.error failure)

theorem Answers.congr {document document' : Document} {e : Evaluation NamedWait}
    {status : TaskStatus} (h : c.Answers now document e status)
    (hsame : document.skeleton = document'.skeleton) : c.Answers now document' e status := by
  rw [Answers] at h ⊢
  split at h
  · exact h
  · exact h.congr hsame
  · exact h

/-- The end of a turn in which the requirement has not failed. -/
theorem answers_proceed {p : Page} {e : Evaluation NamedWait} {d : Download}
    (hd : c.Fetches now d) (he : ∀ error, e ≠ .failed error) (hnow : p.surroundings.now = now) :
    c.Answers now p.document e (p.proceed c.component c.name e d).1 := by
  have hopen : e.result? = none ∨ e = .succeeded := by
    cases e with
    | failed error => exact absurd rfl (he error)
    | succeeded => exact .inr rfl
    | _ => exact .inl rfl
  cases hd with
  | @arriving ticket delay answer hrequest hnone =>
    have hverdict : verdict (resultOf e) (c.downloadBy now) = none := by
      rw [hnone, resultOf]
      rcases hopen with hopen | rfl
      · rw [hopen]
        rfl
      · rfl
    rw [Answers, hverdict]
    exact ⟨_, .arriving hrequest hnone, rfl⟩
  | @settled result hsome =>
    rw [Answers, hsome]
    cases result with
    | error error =>
      rw [Page.proceed.eq_def]
      rcases hopen with hopen | rfl
      · rw [resultOf, hopen]
        rfl
      · rfl
    | ok loaded =>
      cases e with
      | failed error => exact absurd rfl (he error)
      | succeeded => exact ⟨p, hnow, rfl, rfl⟩
      | waiting wait => exact ⟨_, .settled hsome, rfl⟩
      | joining join operands => exact ⟨_, .settled hsome, rfl⟩

/-- A download that goes on. -/
theorem Fetches.resume {p : Page} {name : String} {d : Download} (h : c.Fetches now d)
    (hle : now ≤ p.surroundings.now) :
    c.Fetches p.surroundings.now (p.resumeDownload name d).1 := by
  cases h with
  | settled hsome => exact .settled (downloadBy_mono hsome hle)
  | @arriving ticket delay answer hrequest hnone =>
    rw [Page.resumeDownload]
    cases delay with
    | none => exact .arriving hrequest (by rw [downloadBy, hrequest])
    | some delay =>
      by_cases hdue : c.surroundings.now + delay ≤ p.surroundings.now
      · rw [if_pos (by simpa using hdue)]
        refine .settled ?_
        rw [downloadBy, hrequest]
        dsimp only
        rw [if_pos hdue]
        cases answer <;> rfl
      · rw [if_neg (by simpa using hdue)]
        refine .arriving hrequest ?_
        rw [downloadBy, hrequest]
        exact if_neg hdue

/-- **A turn of an activation that waits.** -/
theorem answers_resumeActivation {p : Page} {e : Evaluation NamedWait} {d : Download}
    (hd : c.Fetches now d) (hle : now ≤ p.surroundings.now) :
    c.Answers p.surroundings.now p.document
      (e.resume (Requirement.rules p.strategies c.component) p.surroundings).1
      (p.resumeActivation c.component c.name e d).1 := by
  have hnow : (e.resume (Requirement.rules p.strategies c.component) p.surroundings).2.now =
      p.surroundings.now :=
    resume_keeps (Q := fun s : Surroundings => s.now = p.surroundings.now)
      (fun _ _ h => Wait.now_resume.trans h) (fun _ _ h => Wait.now_release.trans h) e rfl
  rw [Page.resumeActivation]
  dsimp only
  split
  · next error hfailed =>
    rw [hfailed]
    exact rfl
  · next hopen =>
    let resumed : Page := { p with surroundings :=
      (e.resume (Requirement.rules p.strategies c.component) p.surroundings).2 }
    have hfetches : c.Fetches resumed.surroundings.now (resumed.resumeDownload c.name d).1 :=
      hd.resume (Nat.le_trans hle (Nat.le_of_eq hnow.symm))
    have hanswers : c.Answers p.surroundings.now (resumed.resumeDownload c.name d).2.document _ _ :=
      answers_proceed (hnow ▸ hfetches) (fun error hfailed => hopen error hfailed)
        (Page.now_resumeDownload.trans hnow)
    exact hanswers.congr (Page.Keeps.of_records (Page.records_resumeDownload c.name d)).skeleton

/-- **The request for the module** of the claim. -/
theorem fetches_beginDownload {p : Page}
    (hrequest : (p.modules.request c.name p.options).1 = c.request)
    (hnow : p.surroundings.now = c.surroundings.now) :
    c.Fetches c.surroundings.now (p.beginDownload c.name).1 := by
  rw [Page.beginDownload]
  generalize p.modules.request c.name p.options = r at hrequest ⊢
  obtain ⟨request, modules⟩ := r
  dsimp only at hrequest ⊢
  split
  · refine .settled ?_
    rw [downloadBy, ← hrequest]
  · next answer =>
    refine .settled ?_
    rw [downloadBy, ← hrequest]
    cases answer <;> exact if_pos (Nat.le_refl _)
  · next delay answer hnonzero =>
    rw [hnow]
    refine .arriving hrequest.symm ?_
    rw [downloadBy, ← hrequest]
    cases delay with
    | none => rfl
    | some delay =>
      refine if_neg fun hle => hnonzero ?_
      obtain rfl : delay = 0 := by omega
      rfl

theorem evaluation_nil {p : Page} (tree : Requirement)
    (hsurroundings : p.surroundings = c.surroundings)
    (hstrategies : p.strategies = c.strategies) : c.evaluation tree [] =
      (tree.start (Requirement.rules p.strategies c.component) p.surroundings).1 := by
  rw [hsurroundings, hstrategies]
  rfl

/-- **The turn of the claim.** -/
theorem answers_await {p : Page} (tree : Requirement)
    (hsurroundings : p.surroundings = c.surroundings) (hstrategies : p.strategies = c.strategies)
    (hrequest : (p.modules.request c.name p.options).1 = c.request) :
    c.Answers c.surroundings.now p.document (c.evaluation tree [])
      (p.await c.component c.name tree).1 := by
  have hnow : (tree.start (Requirement.rules p.strategies c.component) p.surroundings).2.now =
      c.surroundings.now := by
    rw [← hsurroundings]
    have halike : p.surroundings.Alike []
        (tree.start (Requirement.rules p.strategies c.component) p.surroundings).2 :=
      alike_start id (fun a => p.strategies.get? a.name) c.component tree nofun
    exact halike.now
  rw [evaluation_nil tree hsurroundings hstrategies, Page.await]
  dsimp only
  split
  · next error hfailed =>
    rw [hfailed]
    exact rfl
  · next hopen =>
    let started : Page := { p with surroundings :=
      (tree.start (Requirement.rules p.strategies c.component) p.surroundings).2 }
    have hanswers : c.Answers c.surroundings.now (started.beginDownload c.name).2.document _ _ :=
      answers_proceed (fetches_beginDownload (p := started) hrequest hnow)
        (fun error hfailed => hopen error hfailed) (Page.now_beginDownload.trans hnow)
    exact hanswers.congr (Page.Keeps.of_records (Page.records_beginDownload c.name)).skeleton

/-- If the requirement fails at once the module is not asked for. -/
theorem modules_await {p : Page} (tree : Requirement)
    (hsurroundings : p.surroundings = c.surroundings)
    (hstrategies : p.strategies = c.strategies) {failure : Failure}
    (hfailed : resultOf (c.evaluation tree []) = some (.error failure)) :
    (p.await c.component c.name tree).2.modules = p.modules := by
  rw [evaluation_nil tree hsurroundings hstrategies] at hfailed
  rw [Page.await]
  generalize tree.start (Requirement.rules p.strategies c.component) p.surroundings = started
    at hfailed ⊢
  obtain ⟨e, s⟩ := started
  cases e with
  | failed error => rfl
  | succeeded => cases hfailed
  | waiting wait => cases hfailed
  | joining join operands => cases hfailed

/-! ## From one look to the next -/

variable {k l : Nat} {x : Except Failure Unit} {status : TaskStatus}

theorem requirement_append {more : List Page} (h : c.requirement looks = some x) :
    c.requirement (looks ++ more) = some x := by
  induction more using List.reverseRecOn with
  | nil => rwa [List.append_nil]
  | append_singleton more q ih =>
    rw [← List.append_assoc]
    exact requirement_concat ih

/-- **The moments are in the order of time.** -/
def Ordered (c : Claim) (looks : List Page) : Prop :=
  ∀ k l, k ≤ l → c.clock (looks.take k) ≤ c.clock (looks.take l)

theorem Ordered.concat (h : c.Ordered looks) (hle : c.clock looks ≤ q.surroundings.now) :
    c.Ordered (looks ++ [q]) := by
  have hlast : ∀ k, looks.length < k → c.clock ((looks ++ [q]).take k) = q.surroundings.now :=
    fun k hk => by
      rw [List.take_of_length_le (by rwa [List.length_append]), clock_concat]
  intro k l hkl
  rcases Nat.lt_or_ge looks.length k with hk | hk
  · exact Nat.le_of_eq ((hlast k hk).trans (hlast l (Nat.lt_of_lt_of_le hk hkl)).symm)
  · rw [List.take_append_of_le_length hk]
    rcases Nat.lt_or_ge looks.length l with hl | hl
    · rw [hlast l hl]
      have hmono := h k looks.length hk
      rw [List.take_length] at hmono
      exact Nat.le_trans hmono hle
    · rw [List.take_append_of_le_length hl]
      exact h k l hkl

/-- What the requirement has come to first it has come to. -/
theorem requirement_of_firstAt (h : firstAt c.requirement looks = some (k, x)) :
    c.requirement looks = some x := by
  have happend : c.requirement (looks.take k ++ looks.drop k) = some x :=
    requirement_append (firstAt_eq h)
  rwa [List.take_append_drop] at happend

theorem download_of_firstAt (hordered : c.Ordered looks)
    (h : firstAt c.download looks = some (k, x)) : c.download looks = some x := by
  have hmono := hordered k looks.length (le_of_firstAt h)
  rw [List.take_length] at hmono
  exact downloadBy_mono (firstAt_eq h) hmono

/-- Nothing has come of both as long as nothing comes of them now. -/
theorem verdict_of_outcome_none (hordered : c.Ordered looks) (h : c.outcome looks = none) :
    verdict (c.requirement looks) (c.download looks) = none := by
  refine verdict_of_awaitBoth h (fun x hx => ?_) fun x hx => ?_
  · obtain ⟨k, y, hk⟩ := exists_firstAt hx
    obtain rfl : y = x := Option.some.inj ((requirement_of_firstAt hk).symm.trans hx)
    exact ⟨k, hk⟩
  · obtain ⟨k, y, hk⟩ := exists_firstAt hx
    obtain rfl : y = x := Option.some.inj ((download_of_firstAt hordered hk).symm.trans hx)
    exact ⟨k, hk⟩

/-- **One more look** at an activation that waits. -/
theorem outcome_concat (hordered : c.Ordered looks) (hle : c.clock looks ≤ q.surroundings.now)
    (h : c.outcome looks = none) : c.outcome (looks ++ [q]) =
      (verdict (c.requirement (looks ++ [q])) (c.download (looks ++ [q]))).map
        (looks.length + 1, ·) := by
  rw [outcome, firstAt_concat, firstAt_concat]
  refine awaitBoth_or h (fun k x hk => ⟨Nat.le_succ_of_le (le_of_firstAt hk), ?_⟩)
    fun k x hk => ⟨Nat.le_succ_of_le (le_of_firstAt hk), ?_⟩
  · exact requirement_append (requirement_of_firstAt hk)
  · rw [download, clock_concat]
    exact downloadBy_mono (download_of_firstAt hordered hk) hle

/-- **What the activation has come to** does not change. -/
theorem outcome_stable (h : c.outcome looks = some (k, x)) :
    c.outcome (looks ++ [q]) = some (k, x) := by
  rw [outcome, firstAt_concat, firstAt_concat]
  exact awaitBoth_stable h (fun l y hl => Nat.lt_succ_of_le (le_of_firstAt hl))
    fun l y hl => Nat.lt_succ_of_le (le_of_firstAt hl)

theorem le_of_outcome (h : c.outcome looks = some (k, x)) : k ≤ looks.length :=
  le_of_awaitBoth h (fun _ _ hl => le_of_firstAt hl) fun _ _ hl => le_of_firstAt hl

theorem outcome_append {more : List Page} (h : c.outcome looks = some (k, x)) :
    c.outcome (looks ++ more) = some (k, x) := by
  induction more using List.reverseRecOn with
  | nil => rwa [List.append_nil]
  | append_singleton more q ih =>
    rw [← List.append_assoc]
    exact outcome_stable ih

/-- Before the moment at which the activation comes to something it has come to nothing. -/
theorem outcome_take (h : c.outcome looks = some (k, x)) (hl : l < k) :
    c.outcome (looks.take l) = none := by
  cases hearlier : c.outcome (looks.take l) with
  | none => rfl
  | some found =>
    obtain ⟨k', x'⟩ := found
    have hsame : c.outcome (looks.take l ++ looks.drop l) = some (k', x') :=
      outcome_append hearlier
    rw [List.take_append_drop, h] at hsame
    cases hsame
    have hle := le_of_outcome hearlier
    rw [List.length_take] at hle
    exact absurd hl (Nat.not_lt.mpr (Nat.le_trans hle (Nat.min_le_left _ _)))

theorem outcome_nil (c : Claim) :
    c.outcome [] = (verdict (c.requirement []) (c.download [])).map (0, ·) := by
  rw [outcome, firstAt_nil, firstAt_nil, awaitBoth_at]

/-- A requirement that fails at once ends the activation at once. -/
theorem outcome_of_failed {failure : Failure} (h : c.requirement [] = some (.error failure)) :
    c.outcome looks = some (0, .error failure) := by
  have hnil : c.outcome [] = some (0, .error failure) := by
    rw [outcome_nil, h]
    rfl
  exact outcome_append hnil

/-- **The module arrives on time**: if the activation has not ended before, it is told at the very
time at which the answer is due. -/
def Punctual (c : Claim) (looks : List Page) : Prop :=
  ∀ k x, firstAt c.download looks = some (k, x) →
    (∀ l y, c.outcome looks = some (l, y) → k ≤ l) → c.due? = some (c.clock (looks.take k))

theorem punctual_nil (c : Claim) : c.Punctual [] := by
  intro k x hfirst _
  rw [firstAt_nil] at hfirst
  obtain ⟨y, hy, heq⟩ := Option.map_eq_some_iff.mp hfirst
  rw [download, downloadBy] at hy
  rw [due?, List.take_nil]
  cases hrequest : c.request with
  | settled result => rfl
  | answered delay answer =>
    rw [hrequest] at hy
    cases delay with
    | none => cases hy
    | some delay =>
      dsimp only at hy
      split at hy
      · next hdue => exact congrArg some (Nat.le_antisymm hdue (Nat.le_add_right _ _))
      · cases hy

theorem Punctual.concat (h : c.Punctual looks)
    (htimely : c.outcome looks = none → c.download looks = none → ∀ delay answer,
      c.request = .answered (some delay) answer → q.surroundings.now ≤ c.surroundings.now + delay) :
    c.Punctual (looks ++ [q]) := by
  intro k x hfirst hended
  rw [firstAt_concat] at hfirst
  cases hbefore : firstAt c.download looks with
  | some found =>
    rw [hbefore, Option.some_or] at hfirst
    cases hfirst
    rw [List.take_append_of_le_length (le_of_firstAt hbefore)]
    exact h k x hbefore fun l y hl => hended l y (outcome_stable hl)
  | none =>
    rw [hbefore, Option.none_or] at hfirst
    obtain ⟨y, hy, heq⟩ := Option.map_eq_some_iff.mp hfirst
    cases heq
    have hopen : c.outcome looks = none := by
      cases houtcome : c.outcome looks with
      | none => rfl
      | some found =>
        obtain ⟨l, z⟩ := found
        have hle := hended l z (outcome_stable houtcome)
        exact absurd (le_of_outcome houtcome) (Nat.not_le.mpr hle)
    have hnothing : c.download looks = none := by
      cases hdownload : c.download looks with
      | none => rfl
      | some z =>
        obtain ⟨k, z', hk⟩ := exists_firstAt hdownload
        rw [hbefore] at hk
        cases hk
    rw [List.take_of_length_le (by simp), clock_concat, due?]
    rw [download, clock_concat, downloadBy] at hy
    rw [download, downloadBy] at hnothing
    cases hrequest : c.request with
    | settled result =>
      rw [hrequest] at hnothing
      cases hnothing
    | answered delay answer =>
      rw [hrequest] at hy
      cases delay with
      | none => cases hy
      | some delay =>
        have hlast : q.surroundings.now ≤ c.surroundings.now + delay := by
          refine htimely hopen ?_ delay answer hrequest
          rw [download, downloadBy]
          exact hnothing
        dsimp only at hy
        split at hy
        · next hdue => exact congrArg some (Nat.le_antisymm hdue hlast)
        · cases hy

/-- **Success takes the later of the two times.** -/
theorem time_of_ok (hordered : c.Ordered looks) (hpunctual : c.Punctual looks)
    (h : c.outcome looks = some (k, .ok ())) : ∃ r due,
      firstAt c.requirement looks = some (r, .ok ()) ∧ c.due? = some due ∧
      c.clock (looks.take k) = max (c.clock (looks.take r)) due := by
  obtain ⟨r, m, hr, hm, rfl⟩ := awaitBoth_ok h
  have hdue := hpunctual m _ hm fun l y hl => by
    rw [h] at hl
    cases hl
    exact Nat.le_max_right r m
  refine ⟨r, _, hr, hdue, ?_⟩
  rcases Nat.le_total r m with hle | hle
  · rw [Nat.max_eq_right hle, Nat.max_eq_right (hordered r m hle)]
  · rw [Nat.max_eq_left hle, Nat.max_eq_left (hordered m r hle)]

/-- **A failure is the earlier one**, and it comes at the time of its cause. -/
theorem time_of_error {failure : Failure} (hpunctual : c.Punctual looks)
    (h : c.outcome looks = some (k, .error failure)) :
    (firstAt c.requirement looks = some (k, .error failure) ∧
        ∀ m e, firstAt c.download looks = some (m, .error e) → k ≤ m) ∨
      (firstAt c.download looks = some (k, .error failure) ∧
        c.due? = some (c.clock (looks.take k)) ∧
        ∀ r e, firstAt c.requirement looks = some (r, .error e) → k < r) := by
  refine (awaitBoth_error h).imp_right fun ⟨hm, hlater⟩ =>
    ⟨hm, hpunctual k _ hm fun l y hl => ?_, hlater⟩
  rw [h] at hl
  cases hl
  exact Nat.le_refl _

/-- **How far the activation has come** after some looks. -/
def Stage (c : Claim) (looks : List Page) (status : TaskStatus) : Prop :=
  match c.outcome looks with
  | none => ∃ tree d, c.parsed = .ok tree ∧ c.Fetches (c.clock looks) d ∧
      status = .awaiting c.component c.name (c.evaluation tree looks) d
  | some (k, .ok ()) =>
    HandedBack c.component.element (c.clock (looks.take k)) (c.documentAt (looks.take k)) status
  | some (_, .error failure) => status = .ended (.error failure)

theorem Answers.stage {tree : Requirement}
    (h : c.Answers (c.clock looks) (c.documentAt looks) (c.evaluation tree looks) status)
    (hparsed : c.parsed = .ok tree) (houtcome : c.outcome looks =
      (verdict (c.requirement looks) (c.download looks)).map (looks.length, ·)) :
    c.Stage looks status := by
  have hrequirement : c.requirement looks = resultOf (c.evaluation tree looks) := by
    rw [requirement, hparsed]
  rw [Answers] at h
  rw [Stage, houtcome, hrequirement, download]
  generalize verdict _ _ = v at h ⊢
  rcases v with _ | failure | ⟨⟨⟩⟩
  · obtain ⟨d, hd, hstatus⟩ := h
    exact ⟨tree, d, hparsed, hd, hstatus⟩
  · exact h
  · simpa only [Option.map_some, List.take_length] using h

/-- An activation that has come to something has ended. -/
theorem Stage.ended (h : c.Stage looks status) (houtcome : c.outcome looks = some (k, x)) :
    ∃ result, status = .ended result := by
  rw [Stage, houtcome] at h
  rcases x with failure | ⟨⟨⟩⟩
  · exact ⟨_, h⟩
  · obtain ⟨_, -, -, hstatus⟩ := h
    exact ⟨_, hstatus⟩

/-- **A download for which nothing has happened** is where it was. -/
theorem Fetches.idle {d : Download} {s : Surroundings} (h : c.Fetches now d) (hle : now ≤ s.now)
    (hidle : ∀ wait ∈ d.waits, wait.isReady s = false) :
    c.Fetches s.now d ∧ c.downloadBy s.now = c.downloadBy now := by
  cases h with
  | settled hsome =>
    have hlater := downloadBy_mono hsome hle
    exact ⟨.settled hlater, hlater.trans hsome.symm⟩
  | @arriving ticket delay answer hrequest hnone =>
    have hlater : c.downloadBy s.now = none := by
      rw [downloadBy, hrequest]
      cases delay with
      | none => rfl
      | some delay =>
        have hready := hidle _ (List.mem_singleton_self _)
        rw [Wait.isReady, decide_eq_false_iff_not] at hready
        exact if_neg hready
    exact ⟨.arriving hrequest hlater, hlater.trans hnone.symm⟩

end Claim

end Hydration
