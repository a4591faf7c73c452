import Mathlib.Algebra.Group.Nat.Defs
import Mathlib.Data.List.Basic

/-!
Reading records from a sequence of bytes. `Reads m bs a` says that the reader `m` takes exactly the
bytes `bs` where they come next, and returns `a`. A reader that runs other readers in turn takes
what they take in turn, so that a format is checked field by field.
-/

namespace OpenRoad.ByteReader

/-- Bytes and the position of the next one. -/
structure Source where
  data : List UInt8
  idx : Nat

/-- The bytes `bs` come next. -/
def Source.Next (s : Source) (bs : List UInt8) : Prop := ∃ rest, s.data.drop s.idx = bs ++ rest

/-- Go past `n` bytes. -/
def Source.skip (s : Source) (n : Nat) : Source := { s with idx := s.idx + n }

@[simp] theorem Source.skip_zero (s : Source) : s.skip 0 = s := rfl

@[simp] theorem Source.skip_skip (s : Source) (n k : Nat) : (s.skip n).skip k = s.skip (n + k) := by
  simp [skip, Nat.add_assoc]

theorem Source.Next.left {s : Source} {bs bs' : List UInt8} (h : s.Next (bs ++ bs')) : s.Next bs := by
  obtain ⟨rest, hrest⟩ := h
  exact ⟨bs' ++ rest, by rw [hrest, List.append_assoc]⟩

theorem Source.Next.right {s : Source} {bs bs' : List UInt8} (h : s.Next (bs ++ bs')) :
    (s.skip bs.length).Next bs' := by
  obtain ⟨rest, hrest⟩ := h
  refine ⟨rest, ?_⟩
  rw [skip, ← List.drop_drop, hrest, List.append_assoc, List.drop_left]

/-- A reader fails or returns a value and moves on. -/
abbrev Reader (ε α : Type) := StateT Source (Except ε) α

variable {ε α β : Type}

/-- The reader takes the bytes `bs` and returns `a`. -/
def Reads (m : Reader ε α) (bs : List UInt8) (a : α) : Prop :=
  ∀ s : Source, s.Next bs → m s = .ok (a, s.skip bs.length)

theorem reads_pure (a : α) : Reads (pure a : Reader ε α) [] a := fun _ _ => rfl

theorem Reads.bind {m : Reader ε α} {f : α → Reader ε β} {p q : List UInt8} {a : α} {b : β}
    (hm : Reads m p a) (hf : Reads (f a) q b) : Reads (m >>= f) (p ++ q) b := by
  intro s hs
  change (m s).bind _ = _
  rw [hm s hs.left]
  change f a (s.skip p.length) = _
  rw [hf _ hs.right, Source.skip_skip, List.length_append]

/-- The last of the readers. -/
theorem Reads.bind_last {m : Reader ε α} {f : α → Reader ε β} {p : List UInt8} {a : α} {b : β}
    (hm : Reads m p a) (hf : f a = pure b) : Reads (m >>= f) p b := by
  have h := hm.bind (f := f) (q := []) (b := b) (by rw [hf]; exact reads_pure b)
  rwa [List.append_nil] at h

theorem Reads.bind_pure {m : Reader ε α} {f : α → β} {p : List UInt8} {a : α} (hm : Reads m p a) :
    Reads (m >>= fun a => pure (f a)) p (f a) :=
  hm.bind_last rfl

/-- Where two readers in turn return, both do. -/
theorem bind_eq_ok {m : Reader ε α} {f : α → Reader ε β} {s s' : Source} {b : β}
    (h : (m >>= f) s = .ok (b, s')) : ∃ a t, m s = .ok (a, t) ∧ f a t = .ok (b, s') := by
  change (m s).bind (fun r => f r.1 r.2) = _ at h
  cases hm : m s with
  | error e => rw [hm] at h; cases h
  | ok r =>
      rw [hm] at h
      exact ⟨r.1, r.2, rfl, h⟩

/-- The reader is run `n` times. -/
def replicate (m : Reader ε α) : Nat → Reader ε (List α)
  | 0 => pure []
  | n + 1 => do
      let a ← m
      let as ← replicate m n
      pure (a :: as)

theorem reads_replicate {ι : Type} {m : Reader ε α} {f : ι → List UInt8} {g : ι → α} {l : List ι}
    (h : ∀ i ∈ l, Reads m (f i) (g i)) :
    Reads (replicate m l.length) (l.flatMap f) (l.map g) := by
  induction l with
  | nil => exact reads_pure []
  | cons i l ih =>
      rw [List.flatMap_cons]
      refine (h i List.mem_cons_self).bind ?_
      exact (ih fun j hj => h j (List.mem_cons_of_mem _ hj)).bind_pure

/-! ### Bytes -/

/-- The next byte; `e` is raised at the end of the data. -/
def next (e : ε) : Reader ε UInt8 := fun s =>
  match s.data[s.idx]? with
  | some b => .ok (b, s.skip 1)
  | none => .error e

theorem reads_next (e : ε) (b : UInt8) : Reads (next e) [b] b := by
  rintro s ⟨rest, hrest⟩
  have hget : s.data[s.idx]? = some b := by
    have h := congrArg List.head? hrest
    rwa [List.head?_drop] at h
  rw [next, hget]
  rfl

/-- The next `n` bytes. -/
def take (e : ε) : Nat → Reader ε (List UInt8)
  | 0 => pure []
  | n + 1 => do
      let b ← next e
      let bs ← take e n
      pure (b :: bs)

theorem reads_take (e : ε) (bs : List UInt8) : Reads (take e bs.length) bs bs := by
  induction bs with
  | nil => exact reads_pure []
  | cons b bs ih => exact (reads_next e b).bind ih.bind_pure

/-! ### Words of four bytes, the least significant one first -/

def wordBytes (v : UInt32) : List UInt8 :=
  [UInt8.ofNat v.toNat, UInt8.ofNat (v.toNat / 2 ^ 8), UInt8.ofNat (v.toNat / 2 ^ 16),
    UInt8.ofNat (v.toNat / 2 ^ 24)]

def wordOf (b₀ b₁ b₂ b₃ : UInt8) : UInt32 :=
  UInt32.ofNat (b₀.toNat + b₁.toNat * 2 ^ 8 + b₂.toNat * 2 ^ 16 + b₃.toNat * 2 ^ 24)

theorem wordOf_wordBytes (v : UInt32) :
    wordOf (UInt8.ofNat v.toNat) (UInt8.ofNat (v.toNat / 2 ^ 8)) (UInt8.ofNat (v.toNat / 2 ^ 16))
      (UInt8.ofNat (v.toNat / 2 ^ 24)) = v := by
  have hlt := v.toNat_lt
  rw [wordOf, ← UInt32.toNat_inj, UInt32.toNat_ofNat']
  simp only [UInt8.toNat_ofNat']
  omega

/-- The next word. -/
def word (e : ε) : Reader ε UInt32 := do
  let b₀ ← next e
  let b₁ ← next e
  let b₂ ← next e
  let b₃ ← next e
  pure (wordOf b₀ b₁ b₂ b₃)

theorem reads_word (e : ε) (v : UInt32) : Reads (word e) (wordBytes v) v := by
  have hlast : Reads (next e >>= fun b₃ => pure (wordOf (UInt8.ofNat v.toNat)
      (UInt8.ofNat (v.toNat / 2 ^ 8)) (UInt8.ofNat (v.toNat / 2 ^ 16)) b₃))
      [UInt8.ofNat (v.toNat / 2 ^ 24)] v := by
    have h := (reads_next e (UInt8.ofNat (v.toNat / 2 ^ 24))).bind_pure (f := wordOf
      (UInt8.ofNat v.toNat) (UInt8.ofNat (v.toNat / 2 ^ 8)) (UInt8.ofNat (v.toNat / 2 ^ 16)))
    rwa [wordOf_wordBytes] at h
  refine (reads_next e _).bind (q := _ :: _) ?_
  refine (reads_next e _).bind (q := _ :: _) ?_
  exact (reads_next e _).bind hlast

end OpenRoad.ByteReader
