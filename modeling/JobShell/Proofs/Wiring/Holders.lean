import JobShell.Proofs.Wiring.Grip

/-!
# Who holds an open file

* `World.Holds`: a process has a descriptor of an open file on an object.
* `hasWriter_iff`, `hasReader_iff`: a pipe has a writer while a process holds its write end, and a
  reader while one holds its read end.
* `holds_finish`: a process that has ended holds nothing.
-/

namespace JobShell

namespace World

/-- What a descriptor of a process refers to. -/
def descriptor? (w : World) (pid : Pid) (fd : Nat) : Option Nat :=
  (w.process? pid).bind fun p => Table.get? p.descriptors fd

/-- A process holds an open file on an object. -/
def Holds (w : World) (pid : Pid) (fd : Nat) (o : Object) : Prop :=
  ∃ id, w.descriptor? pid fd = some id ∧ w.object? id = some o

variable {w : World}

theorem descriptor?_eq (w : World) (pid : Pid) (fd : Nat) :
    w.descriptor? pid fd = (w.grip? pid).bind fun g => (g.bindings fd).map Binding.file := by
  unfold grip? descriptor?
  cases w.process? pid <;> simp [Process.grip, Process.bindings, Function.comp_def]

/-! ## Readers and writers -/

theorem any_processes (w : World) (f : Process → Bool) :
    (w.processes.any fun _ q => f q) = true ↔ ∃ pid q, w.process? pid = some q ∧ f q = true := by
  have hloop : (w.processes.any fun _ q => f q) = Id.run (do
      for x in w.processes do
        if f x.2 then return true
      return false) := rfl
  have hlist (l : List (Pid × Process)) : Id.run (do
      for x in l do
        if f x.2 then return true
      return false) = l.any fun x => f x.2 := by
    induction l with
    | nil => rfl
    | cons x rest ih =>
      rw [List.any_cons, ← ih]
      cases hx : f x.2 <;> simp [hx]
  rw [hloop, Std.TreeMap.forIn_eq_forIn_toList, hlist, List.any_eq_true]
  constructor
  · rintro ⟨⟨pid, q⟩, hmem, hf⟩
    exact ⟨pid, q, Std.TreeMap.mem_toList_iff_getElem?_eq_some.1 hmem, hf⟩
  · rintro ⟨pid, q, hq, hf⟩
    exact ⟨(pid, q), Std.TreeMap.mem_toList_iff_getElem?_eq_some.2 hq, hf⟩

theorem isHeld_iff (hs : w.Sound) (f : OpenFile → Bool) :
    w.isHeld f = true ↔
      ∃ pid fd id, w.descriptor? pid fd = some id ∧ ((w.file? id).any f) = true := by
  unfold isHeld descriptor?
  rw [any_processes]
  constructor
  · rintro ⟨pid, q, hq, hany⟩
    obtain ⟨⟨fd, id⟩, hmem, hf⟩ := List.any_eq_true.1 hany
    have htidy : q.tidy := hs.tidy pid q.grip (by rw [grip?, hq]; rfl)
    refine ⟨pid, fd, id, ?_, hf⟩
    rw [hq, Option.bind_some, Process.get?_of_tidy htidy hmem]
  · rintro ⟨pid, fd, id, hid, hf⟩
    obtain ⟨q, hq, hget⟩ := Option.bind_eq_some_iff.1 hid
    exact ⟨pid, q, hq, List.any_eq_true.2 ⟨(fd, id), Table.mem_of_get? hget, hf⟩⟩

theorem any_file? (w : World) (id : Nat) {o : Object} {f : OpenFile → Bool}
    (hf : ∀ file, f file = true ↔ file.object = o) :
    ((w.file? id).any f) = true ↔ w.object? id = some o := by
  unfold object?
  cases w.file? id <;> simp [hf]

theorem hasWriter_iff (hs : w.Sound) (n : Nat) :
    w.hasWriter n = true ↔ ∃ pid fd, w.Holds pid fd (.writeEnd n) := by
  unfold hasWriter Holds
  rw [isHeld_iff hs]
  refine exists_congr fun pid => exists_congr fun fd => exists_congr fun id =>
    and_congr_right fun _ => any_file? w id fun file => ?_
  obtain ⟨object, -⟩ := file
  cases object <;> simp

theorem hasReader_iff (hs : w.Sound) (n : Nat) :
    w.hasReader n = true ↔ ∃ pid fd, w.Holds pid fd (.readEnd n) := by
  unfold hasReader Holds
  rw [isHeld_iff hs]
  refine exists_congr fun pid => exists_congr fun fd => exists_congr fun id =>
    and_congr_right fun _ => any_file? w id fun file => ?_
  obtain ⟨object, -⟩ := file
  cases object <;> simp

/-! ## Ends -/

theorem holds_finish (hs : w.Sound) {pid q : Pid} {e : Ending} {fd : Nat} {o : Object} :
    (w.finish pid e).Holds q fd o ↔ q ≠ pid ∧ w.Holds q fd o := by
  unfold Holds
  simp only [descriptor?_eq, grip?_finish hs.keyed, (keeps_finish hs.keyed pid e).objects]
  by_cases hq : pid = q
  · simp [hq]
  · simp [hq, Ne.symm hq]

/-- What only the process that ends holds is held by nobody afterwards. -/
theorem not_holds_finish (hs : w.Sound) {pid : Pid} {e : Ending} {o : Object}
    (h : ∀ q fd, w.Holds q fd o → q = pid) : ¬∃ q fd, (w.finish pid e).Holds q fd o := by
  rintro ⟨q, fd, hholds⟩
  obtain ⟨hne, hholds⟩ := (holds_finish hs).1 hholds
  exact hne (h q fd hholds)

theorem Sound.finish (hs : w.Sound) (pid : Pid) (e : Ending) : (w.finish pid e).Sound :=
  hs.of_keeps (keeps_finish hs.keyed pid e) (grip?_finish hs.keyed pid e pid) fun g hg => by
    rw [if_pos rfl] at hg
    cases hg

end World

end JobShell
