import Yarmproxy.CreateCommand

/-! # Memcached request lines

The vocabulary of the text protocol's request lines, and how `CreateCommand` recognises one. -/
namespace Yarmproxy

/-- A word that neither a blank nor a line end cuts. -/
structure IsKey (key : Bytes) : Prop where
  ne_nil : key ≠ []
  plain : ∀ c ∈ key, c ≠ ch ' ' ∧ c ≠ ch '\r' ∧ c ≠ ch '\n'

instance (key : Bytes) : Decidable (IsKey key) :=
  decidable_of_iff
    (key ≠ [] ∧ key.all (fun c => decide (c ≠ ch ' ' ∧ c ≠ ch '\r' ∧ c ≠ ch '\n')) = true)
    ⟨fun h => ⟨h.1, fun c hc => of_decide_eq_true (List.all_eq_true.mp h.2 c hc)⟩,
      fun h => ⟨h.1, List.all_eq_true.mpr fun c hc => decide_eq_true (h.2 c hc)⟩⟩

/-- Words with a blank in front of each. -/
def spaced (keys : List Bytes) : Bytes := keys.flatMap (ch ' ' :: ·)

@[simp] theorem spaced_nil : spaced [] = [] := rfl

@[simp] theorem spaced_cons (k : Bytes) (ks : List Bytes) :
    spaced (k :: ks) = ch ' ' :: (k ++ spaced ks) := rfl

theorem spaced_append (ks ks' : List Bytes) : spaced (ks ++ ks') = spaced ks ++ spaced ks' :=
  List.flatMap_append

theorem lf_notMem_spaced {ks : List Bytes} (h : ∀ k ∈ ks, IsKey k) : ch '\n' ∉ spaced ks := by
  intro hmem
  obtain ⟨k, hk, hc⟩ := List.mem_flatMap.mp hmem
  rcases List.mem_cons.mp hc with hc | hc
  · exact absurd hc (by decide)
  · exact ((h k hk).plain _ hc).2.2 rfl

theorem Ptr.exists_mem_eq {p : Ptr} (h : p.rest ≠ []) :
    ∃ pre, pre.length = p.off ∧ p.mem = pre ++ p.rest := by
  refine ⟨p.mem.take p.off, ?_, (List.take_append_drop p.off p.mem).symm⟩
  have hlen := List.length_pos_iff.mpr h
  rw [Ptr.rest, List.length_drop] at hlen
  rw [List.length_take]
  omega

theorem memchr_firstLine {text : Bytes} {size : ℕ} (tail : Bytes) (hlf : ch '\n' ∉ text)
    (hs : text.length < size) :
    memchr (text ++ ch '\n' :: tail) (ch '\n') size = some text.length := by
  obtain ⟨n, rfl⟩ := Nat.exists_eq_add_of_lt hs
  have hn : text.length + n + 1 - text.length = n + 1 := by omega
  rw [memchr, List.take_append, List.take_of_length_le (by omega), hn, List.take_succ_cons]
  apply Lists.findIdx?_stops _ (by simp)
  intro c hc
  simp only [beq_eq_false_iff_ne]
  rintro rfl
  exact hlf hc

/-- A first line that does not start an array goes to the memcached branch. -/
theorem createCommand_memc {buf : Ptr} {text tail : Bytes} {size : ℕ} (bufferSize : ℕ)
    (hm : buf.rest = text ++ ch '\n' :: tail) (hlf : ch '\n' ∉ text)
    (hstar : text.getD 0 0 ≠ ch '*') (hne : text ≠ []) (hs : text.length < size) :
    createCommand bufferSize buf size = createMemc buf size (text.length + 1) := by
  have hhead : buf.rest.getD 0 0 = text.getD 0 0 := by
    obtain ⟨c, cs, rfl⟩ := List.exists_cons_of_ne_nil hne
    rw [hm]
    rfl
  rw [createCommand, hm, memchr_firstLine tail hlf hs, ← hm, hhead]
  simp only
  rw [if_neg hstar]

theorem getMemcCommandType_of_verb {verb : Bytes} (rest : Bytes) (hv : ch ' ' ∉ verb) :
    getMemcCommandType (verb ++ ch ' ' :: rest) =
      (memcCommandNames.lookup verb).getD .unsupported := by
  have hpass : ∀ c ∈ verb, decide (c ≠ ch ' ') = true := by
    intro c hc
    rw [decide_eq_true_eq]
    rintro rfl
    exact hv hc
  rw [getMemcCommandType, List.takeWhile_append_of_pos hpass, List.takeWhile_cons]
  simp

/-- `<verb> word ... word\r\n` -/
def requestLine (verb : Bytes) (words : List Bytes) : Bytes := verb ++ (spaced words ++ crlf)

theorem verb_plain : ∀ verb ∈ memcCommandNames.map Prod.fst,
    ch ' ' ∉ verb ∧ ch '\n' ∉ verb ∧ verb.getD 0 0 ≠ ch '*' ∧ verb ≠ [] := by
  decide

section RequestLine
variable {verb tail : Bytes} {words : List Bytes} {buf : Ptr} {size : ℕ}

theorem requestLine_eq (verb : Bytes) (words : List Bytes) :
    requestLine verb words = (verb ++ spaced words ++ [ch '\r']) ++ [ch '\n'] := by
  simp [requestLine, crlf]
  decide

theorem lf_notMem_line (hv : verb ∈ memcCommandNames.map Prod.fst) (hw : ∀ w ∈ words, IsKey w) :
    ch '\n' ∉ verb ++ spaced words ++ [ch '\r'] := by
  intro hmem
  rcases List.mem_append.mp hmem with hmem | hmem
  · rcases List.mem_append.mp hmem with hmem | hmem
    · exact (verb_plain verb hv).2.1 hmem
    · exact lf_notMem_spaced hw hmem
  · exact absurd hmem (by decide)

theorem bytes_requestLine (hrest : buf.rest = requestLine verb words ++ tail) :
    buf.bytes (requestLine verb words).length = requestLine verb words := by
  rw [Ptr.bytes, hrest, List.take_left]

theorem getMemcCommandType_requestLine (hv : ch ' ' ∉ verb) (hne : words ≠ []) :
    getMemcCommandType (requestLine verb words) =
      (memcCommandNames.lookup verb).getD .unsupported := by
  obtain ⟨w, ws, rfl⟩ := List.exists_cons_of_ne_nil hne
  exact getMemcCommandType_of_verb _ hv

theorem createCommand_requestLine (bufferSize : ℕ) (hv : verb ∈ memcCommandNames.map Prod.fst)
    (hw : ∀ w ∈ words, IsKey w) (hrest : buf.rest = requestLine verb words ++ tail)
    (hs : (requestLine verb words).length ≤ size) :
    createCommand bufferSize buf size = createMemc buf size (requestLine verb words).length := by
  obtain ⟨-, -, hstar, hne⟩ := verb_plain verb hv
  rw [requestLine_eq, List.length_append, List.length_singleton] at hs ⊢
  rw [requestLine_eq, List.append_assoc, List.singleton_append] at hrest
  apply createCommand_memc bufferSize hrest (lf_notMem_line hv hw)
  · obtain ⟨c, cs, rfl⟩ := List.exists_cons_of_ne_nil hne
    exact hstar
  · simp
  · omega

end RequestLine
end Yarmproxy
