import Monitor.Proofs.Debugger.Calls

namespace Monitor

open Debugger Workload

/-- A task that begins is put on those that are under way, and one that ends is taken from them. -/
theorem Workload.Change.tasks {w w' : Workload} (h : w.Change w') :
    w'.tasks = w.tasks ∨ (∃ t, w'.tasks = t :: w.tasks) ∨ ∃ a, w.tasks = ⟨a, 0⟩ :: w'.tasks := by
  cases h with
  | touch | scan | react => exact .inl rfl
  | beginFile | beginMatch | beginScan => exact .inr (.inl ⟨_, rfl⟩)
  | endFile | endMatch | endScan => exact .inr (.inr ⟨_, rfl⟩)

namespace Moment

variable {m m' last : Moment} {level k : Nat} {t : Task} {ts : List Task}

def taskAt (level : Nat) (m : Moment) : Option Task :=
  m.tasks.reverse[level]?

def takenAt (level : Nat) (m : Moment) : Nat :=
  if m.takes = true ∧ m.tasks.length = level + 1 then 1 else 0

/-- From one moment to another, the task that has so many others below it stays under way, and comes
to so many of its lines, processors or breakpoints. -/
inductive Pursues (level : Nat) : Nat → Moment → Moment → Prop
  | refl (m : Moment) : Pursues level 0 m m
  | step {m m' last : Moment} {k : Nat} (h : m.next = some m') (hlevel : level < m'.tasks.length)
    (hmore : Pursues level k m' last) : Pursues level (m.takenAt level + k) m last

theorem tasks_of_takes (h : m.takes = true) : ∃ a n ts, m.tasks = ⟨a, n + 1⟩ :: ts := by
  obtain ⟨focus, waiting, d⟩ := m
  cases focus with
  | answer | reacting => cases h
  | file left printed =>
    cases left with
    | nil => cases h
    | cons line left => exact ⟨_, _, _, rfl⟩
  | matching found =>
    obtain ⟨left, cpuStops, dspStops⟩ := found
    cases left with
    | nil => cases h
    | cons p left => exact ⟨_, _, _, rfl⟩
  | scan s =>
    obtain ⟨p, last, left, stops, found⟩ := s
    cases left with
    | zero => cases h
    | succ left => exact ⟨_, _, _, rfl⟩

theorem getElem?_reverse_cons (h : level < ts.length) :
    (t :: ts).reverse[level]? = ts.reverse[level]? := by
  rw [List.reverse_cons, List.getElem?_append_left (by rwa [List.length_reverse])]

theorem getElem?_reverse_self (t : Task) (ts : List Task) :
    (t :: ts).reverse[ts.length]? = some t := by
  rw [List.reverse_cons, ← List.length_reverse, List.getElem?_concat_length]

theorem reverse_taken (h : m.taskAt level = some t) :
    m.taken.reverse[level]? = some { t with left := t.left - m.takenAt level } ∧
      m.takenAt level ≤ t.left := by
  rw [taken, takenAt]
  by_cases htakes : m.takes = true
  · obtain ⟨a, n, ts, htasks⟩ := tasks_of_takes htakes
    rw [taskAt, htasks] at h
    rw [if_pos htakes, htasks, List.modifyHead_cons, List.length_cons]
    by_cases hlevel : ts.length = level
    · subst hlevel
      rw [getElem?_reverse_self] at h
      cases h
      rw [getElem?_reverse_self, if_pos ⟨htakes, rfl⟩]
      exact ⟨rfl, Nat.le_add_left 1 n⟩
    · have hlt : level < ts.length := by
        have hbound := (List.getElem?_eq_some_iff.1 h).1
        rw [List.length_reverse, List.length_cons] at hbound
        omega
      rw [getElem?_reverse_cons hlt] at h
      rw [getElem?_reverse_cons hlt, if_neg fun h => hlevel (Nat.succ.inj h.2), h]
      exact ⟨rfl, Nat.zero_le _⟩
  · rw [if_neg htakes, if_neg fun h => htakes h.1]
    exact ⟨h, Nat.zero_le _⟩

theorem taskAt_next (hnext : m.next = some m') (hlevel : level < m'.tasks.length)
    (ht : m.taskAt level = some t) :
    m'.taskAt level = some { t with left := t.left - m.takenAt level } := by
  have htaken := (reverse_taken ht).1
  have hbound : level < m.taken.length := by
    simpa using (List.getElem?_eq_some_iff.1 htaken).1
  have htasks : m'.tasks = m.taken ∨ (∃ t, m'.tasks = t :: m.taken) ∨
    ∃ a, m.taken = ⟨a, 0⟩ :: m'.tasks := (change_of_next hnext).tasks
  rw [taskAt, ← htaken]
  obtain hsame | ⟨t', hmore⟩ | ⟨a, hless⟩ := htasks
  · rw [hsame]
  · rw [hmore, getElem?_reverse_cons hbound]
  · rw [hless, getElem?_reverse_cons hlevel]

theorem Pursues.left (h : m.Pursues level k last) (ht : m.taskAt level = some t) :
    last.taskAt level = some { t with left := t.left - k } ∧ k ≤ t.left := by
  induction h generalizing t with
  | refl m => exact ⟨ht, Nat.zero_le _⟩
  | @step m m' last k hnext hlevel hmore ih =>
    have hfirst := (reverse_taken ht).2
    obtain ⟨hlast, hk⟩ := ih (taskAt_next hnext hlevel ht)
    dsimp only at hlast hk
    rw [Nat.sub_sub] at hlast
    exact ⟨hlast, by omega⟩

theorem Pursues.ends {later : Moment} (h : m.Pursues level k last) (ht : m.taskAt level = some t)
    (hlater : last.next = some later) (hlevel : later.tasks.length ≤ level) :
    k + last.takenAt level = t.left := by
  obtain ⟨hlast, hk⟩ := h.left ht
  obtain ⟨htaken, hle⟩ := reverse_taken hlast
  have hbound : level < last.taken.length := by
    simpa using (List.getElem?_eq_some_iff.1 htaken).1
  have htasks : later.tasks = last.taken ∨ (∃ t, later.tasks = t :: last.taken) ∨
    ∃ a, last.taken = ⟨a, 0⟩ :: later.tasks := (change_of_next hlater).tasks
  obtain hsame | ⟨t', hmore⟩ | ⟨a, hless⟩ := htasks
  · rw [hsame] at hlevel
    omega
  · rw [hmore, List.length_cons] at hlevel
    omega
  · have hlast : later.tasks.length = level := by
      rw [hless, List.length_cons] at hbound
      omega
    rw [hless, ← hlast, getElem?_reverse_self] at htaken
    have hleft := congrArg Task.left (Option.some.inj htaken)
    dsimp only at hleft hle
    rw [hlast] at hleft
    omega

theorem Leads.acc (h : m.Leads last) (hlast : last.next = none) :
    Acc (fun later m : Moment => m.next = some later) m := by
  induction h using Relation.ReflTransGen.head_induction_on with
  | refl =>
    refine ⟨_, fun later hlater => ?_⟩
    rw [hlast] at hlater
    cases hlater
  | head hnext _ ih =>
    refine ⟨_, fun later hlater => ?_⟩
    cases hnext.symm.trans hlater
    exact ih

end Moment

/-- A call comes to its end. Never are there too many command files or two scans of one processor,
and each of them has come to just what there was at its beginning when it ends. -/
theorem Call.terminates (call : Call) (d : Debugger) :
    (call.begin d).Leads (call.finish d) ∧ (call.finish d).next = none ∧
      Acc (fun later m : Moment => m.next = some later) (call.begin d) ∧
      (∀ m, (call.begin d).Leads m →
        Task.count .file m.tasks ≤ maxFileDepth ∧ ∀ p, Task.count (.scan p) m.tasks ≤ 1) ∧
      ∀ m level t k last, (call.begin d).Leads m → m.taskAt level = some t →
        m.Pursues level k last → k ≤ t.left ∧
          ∀ later, last.next = some later → later.tasks.length ≤ level →
            k + last.takenAt level = t.left := by
  have hfinish := call.leads_finish d
  refine ⟨hfinish, rfl, hfinish.acc rfl, fun m hm => ?_, fun m level t k last _ ht hlast => ?_⟩
  · have horder := call.orderly hm
    refine ⟨Nat.le_trans horder.counted.room (Nat.sub_le _ _), fun p => ?_⟩
    have hp := horder.exclusive p
    have hle := Bool.toNat_le (m.debugger.list p).scanning
    have hdebugger : m.workload.debugger = m.debugger := rfl
    have htasks : m.workload.tasks = m.tasks := rfl
    rw [hdebugger, htasks] at hp
    omega
  · exact ⟨(hlast.left ht).2, fun later hlater hlevel => hlast.ends ht hlater hlevel⟩

end Monitor
