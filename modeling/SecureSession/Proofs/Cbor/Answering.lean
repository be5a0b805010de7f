import SecureSession.Cbor.Skip
import SecureSession.Proofs.Cbor.Reading

/-! # Answers for delimited bytes

Where the bytes of a value are given, a reader that makes something of them, or nothing, need not
look behind them. Its answer for a sequence is then that of folding the answers for the items, in a
sequence that is counted and in one that ends with a break alike. -/

namespace SecureSession.Cbor.Reader

variable {α β σ ι : Type}

/-! ### Answers -/

/-- What `r` answers for some bytes with nothing behind them. -/
def answer (r : Reader α) (bytes : Bytes) : Except Error α := (r bytes).map Prod.fst

/-- Whether `r` answers `x` for some bytes whatever follows them, and
leaves that unless it fails. -/
def Answers (r : Reader α) (bytes : Bytes) (x : Except Error α) : Prop :=
  ∀ more, r (bytes ++ more) = x.map fun a => (a, more)

/-- Whether `r` answers the same for some bytes whatever follows them. -/
def Settles (r : Reader α) (bytes : Bytes) : Prop := r.Answers bytes (r.answer bytes)

variable {r : Reader α} {bytes : Bytes} {x : Except Error α} {a : α}

theorem Reads.answers (h : r.Reads bytes a) : r.Answers bytes (.ok a) := h

theorem Answers.answer_eq (h : r.Answers bytes x) : r.answer bytes = x := by
  have hx := h []
  rw [List.append_nil] at hx
  rw [answer, hx]
  cases x <;> rfl

theorem Answers.settles (h : r.Answers bytes x) : r.Settles bytes := by
  rw [Settles, h.answer_eq]
  exact h

theorem Reads.settles (h : r.Reads bytes a) : r.Settles bytes := h.answers.settles

/-- What is answered is read. -/
theorem Settles.answer_eq_ok (h : r.Settles bytes) : r.answer bytes = .ok a ↔ r.Reads bytes a := by
  constructor
  · intro ha
    rw [Settles, ha] at h
    exact h
  · exact fun hr => hr.answers.answer_eq

theorem answers_throw (e : Error) (bytes : Bytes) :
    (MonadExcept.throw e : Reader α).Answers bytes (.error e) := fun _ => rfl

/-- After a failure nothing is read. -/
theorem Answers.bind {f : α → Reader β} {second : Bytes} {y : α → Except Error β}
    (hr : r.Answers bytes x) (hf : ∀ a, x = .ok a → (f a).Answers second (y a)) :
    (r >>= f).Answers (bytes ++ second) (x >>= y) := by
  intro more
  rw [List.append_assoc]
  show (r (bytes ++ (second ++ more)) >>= fun p => f p.1 p.2) = _
  rw [hr]
  cases x with
  | error e => rfl
  | ok a => exact hf a rfl more

theorem Answers.last {f : α → Reader β} {y : α → Except Error β} (hr : r.Answers bytes x)
    (hf : ∀ a, x = .ok a → (f a).Answers [] (y a)) : (r >>= f).Answers bytes (x >>= y) := by
  have h := hr.bind hf
  rwa [List.append_nil] at h

theorem Answers.map (h : r.Answers bytes x) (f : α → β) :
    (do return f (← r) : Reader β).Answers bytes (x.map f) := by
  intro more
  show (r (bytes ++ more) >>= fun p => (.ok (f p.1, p.2) : Except Error (β × Bytes))) = _
  rw [h]
  cases x <;> rfl

/-- What is read first is behind the reader that answers for the rest. -/
theorem Reads.answers_bind {f : α → Reader β} {second : Bytes} {y : Except Error β}
    (hr : r.Reads bytes a) (hf : (f a).Answers second y) :
    (r >>= f).Answers (bytes ++ second) y := by
  intro more
  rw [List.append_assoc]
  show (r (bytes ++ (second ++ more)) >>= fun p => f p.1 p.2) = _
  rw [hr]
  exact hf more

theorem Reads.answers_last {f : α → Reader β} {y : Except Error β} (hr : r.Reads bytes a)
    (hf : (f a).Answers [] y) : (r >>= f).Answers bytes y := by
  have h := hr.answers_bind hf
  rwa [List.append_nil] at h

/-! ### Sequences -/

/-- Whether there is a first byte, and it is not a break. -/
def Opens (bytes : Bytes) : Prop := ∃ b tail, bytes = b :: tail ∧ b ≠ 0xff

theorem Reads.ne_nil {head : Bytes} {h : Header} (hh : header.Reads head h) : head ≠ [] := by
  rintro rfl
  cases hh []

/-- A head that is not a break opens with another byte. -/
theorem Reads.opens {head : Bytes} {h : Header} (hh : header.Reads head h) (hne : h ≠ .stop) :
    Opens head := by
  obtain ⟨b, tail, rfl⟩ := List.exists_cons_of_ne_nil hh.ne_nil
  refine ⟨b, tail, rfl, ?_⟩
  rintro rfl
  have hstop : header (0xff :: tail ++ []) = .ok (.stop, tail ++ []) := rfl
  rw [hh] at hstop
  exact hne (congrArg Prod.fst (Except.ok.inj hstop))

theorem Opens.append (h : Opens bytes) (more : Bytes) : Opens (bytes ++ more) := by
  obtain ⟨b, tail, rfl, hb⟩ := h
  exact ⟨b, tail ++ more, rfl, hb⟩

/-- The content of a sequence: its items if its head has counted them, with a
break behind them if not. -/
inductive Spans (n : Nat) (content : Bytes) : (length : Option Nat) → Bytes → Prop
  | counted : Spans n content (some n) content
  | broken : Spans n content none (content ++ [0xff])

section

variable {step : σ → Reader σ} {write : ι → Bytes}

theorem answers_repeats : ∀ {l : List ι}, (∀ s, ∀ a ∈ l, (step s).Settles (write a)) → ∀ s,
    (repeats step l.length s).Answers (l.flatMap write)
      (l.foldlM (fun s a => (step s).answer (write a)) s)
  | [], _, s => (Reads.pure s).answers
  | a :: l, h, s => by
    rw [List.flatMap_cons, List.foldlM_cons]
    exact (h s a List.mem_cons_self).bind fun s' _ =>
      answers_repeats (fun s b hb => h s b (List.mem_cons_of_mem a hb)) s'

theorem answers_untilStopIn : ∀ {l : List ι} {fuel : Nat},
    (∀ s, ∀ a ∈ l, (step s).Settles (write a)) → (∀ a ∈ l, Opens (write a)) → l.length < fuel → ∀ s,
      (untilStopIn step fuel s).Answers (l.flatMap write ++ [0xff])
        (l.foldlM (fun s a => (step s).answer (write a)) s)
  | [], fuel + 1, _, _, _, s => fun _ => rfl
  | a :: l, fuel + 1, h, hopens, hfuel, s => by
    have hrest : ∀ s', (untilStopIn step fuel s').Answers (l.flatMap write ++ [0xff])
        (l.foldlM (fun s a => (step s).answer (write a)) s') :=
      answers_untilStopIn (fun s b hb => h s b (List.mem_cons_of_mem a hb))
        (fun b hb => hopens b (List.mem_cons_of_mem a hb)) (Nat.lt_of_succ_lt_succ hfuel)
    have hnext := (h s a List.mem_cons_self).bind fun s' _ => hrest s'
    obtain ⟨b, tail, hwrite, hb⟩ := hopens a List.mem_cons_self
    rw [List.flatMap_cons, List.foldlM_cons, List.append_assoc]
    intro more
    have hinput := hnext more
    rw [hwrite] at hinput ⊢
    unfold untilStopIn
    exact (if_neg hb).trans hinput

theorem length_le_flatMap : ∀ {l : List ι}, (∀ a ∈ l, Opens (write a)) →
    l.length ≤ (l.flatMap write).length
  | [], _ => Nat.le_refl 0
  | a :: l, h => by
    have hrest := length_le_flatMap fun b hb => h b (List.mem_cons_of_mem a hb)
    obtain ⟨b, tail, hwrite, -⟩ := h a List.mem_cons_self
    rw [List.flatMap_cons, List.length_append, hwrite, List.length_cons, List.length_cons]
    omega

/-- Reading a sequence is folding over its items. -/
theorem answers_items {l : List ι} {length : Option Nat} {body : Bytes}
    (h : ∀ s, ∀ a ∈ l, (step s).Settles (write a)) (hopens : ∀ a ∈ l, Opens (write a))
    (hbody : Spans l.length (l.flatMap write) length body) (s : σ) :
    (items step length s).Answers body (l.foldlM (fun s a => (step s).answer (write a)) s) := by
  cases hbody with
  | counted => exact answers_repeats h s
  | broken =>
    intro more
    have hcount := length_le_flatMap hopens
    refine answers_untilStopIn h hopens ?_ s more
    rw [List.length_append, List.length_append, List.length_singleton]
    omega

end

/-- What is passed over item by item is passed over as a whole. -/
theorem reads_items {inner : Reader Unit} {write : ι → Bytes} {l : List ι} {length : Option Nat}
    {body : Bytes} (h : ∀ a ∈ l, inner.Reads (write a) ()) (hopens : ∀ a ∈ l, Opens (write a))
    (hbody : Spans l.length (l.flatMap write) length body) :
    (items (fun _ => inner) length ()).Reads body () := by
  have hfold : ∀ l : List ι, (∀ a ∈ l, inner.Reads (write a) ()) →
      l.foldlM (fun _ a => inner.answer (write a)) () = .ok () := by
    intro l
    induction l with
    | nil => exact fun _ => rfl
    | cons a l ih =>
      intro h
      rw [List.foldlM_cons, (h a List.mem_cons_self).answers.answer_eq]
      exact ih fun b hb => h b (List.mem_cons_of_mem a hb)
  have hall := answers_items (fun _ a ha => (h a ha).settles) hopens hbody ()
  rw [hfold l h] at hall
  exact hall

/-! ### Segments -/

section

variable {part : Header → Option (Option Nat)} {step : Nat → σ → Reader σ} {kind : Nat → Header}

theorem reads_segmentsIn (hkind : ∀ n, kind n ≠ .stop)
    (hpart : ∀ n, part (kind n) = some (some n)) :
    ∀ {l : List (Bytes × Bytes)}, (∀ p ∈ l, header.Reads p.1 (kind p.2.length)) →
      (∀ s, ∀ p ∈ l, ∃ s', (step p.2.length s).Reads p.2 s') → ∀ s, ∃ s', ∀ fuel, l.length < fuel →
        (segmentsIn part step fuel 1 s).Reads (l.flatMap (fun p => p.1 ++ p.2) ++ [0xff]) s'
  | [], _, _, s => by
    refine ⟨s, fun fuel hfuel => ?_⟩
    obtain ⟨fuel, rfl⟩ : ∃ k, fuel = k + 1 := ⟨fuel - 1, by omega⟩
    exact fun _ => rfl
  | (head, content) :: l, hhead, hstep, s => by
    obtain ⟨s₁, hfirst⟩ := hstep s (head, content) List.mem_cons_self
    obtain ⟨s', hrest⟩ := reads_segmentsIn hkind hpart
      (fun p hp => hhead p (List.mem_cons_of_mem _ hp))
      (fun s p hp => hstep s p (List.mem_cons_of_mem _ hp)) s₁
    refine ⟨s', fun fuel hfuel => ?_⟩
    obtain ⟨fuel, rfl⟩ : ∃ k, fuel = k + 1 := ⟨fuel - 1, by omega⟩
    rw [List.flatMap_cons, List.append_assoc, List.append_assoc]
    refine (hhead (head, content) List.mem_cons_self).bind ?_
    split
    · exact absurd ‹_› (hkind _)
    · rw [hpart]
      exact hfirst.bind (hrest fuel (Nat.lt_of_succ_lt_succ hfuel))

/-- A string in segments is read if every segment is. -/
theorem reads_segments (hkind : ∀ n, kind n ≠ .stop) (hpart : ∀ n, part (kind n) = some (some n))
    {l : List (Bytes × Bytes)} (hhead : ∀ p ∈ l, header.Reads p.1 (kind p.2.length))
    (hstep : ∀ s, ∀ p ∈ l, ∃ s', (step p.2.length s).Reads p.2 s') (s : σ) : ∃ s',
      (segments part step none s).Reads (l.flatMap (fun p => p.1 ++ p.2) ++ [0xff]) s' := by
  obtain ⟨s', h⟩ := reads_segmentsIn hkind hpart hhead hstep s
  refine ⟨s', fun more => h _ ?_ more⟩
  have hcount : l.length ≤ (l.flatMap fun p => p.1 ++ p.2).length := length_le_flatMap
    fun p hp => ((hhead p hp).opens (hkind _)).append p.2
  rw [List.length_append, List.length_append, List.length_singleton]
  omega

end

end SecureSession.Cbor.Reader
