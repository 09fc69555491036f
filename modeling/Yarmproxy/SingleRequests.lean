import Yarmproxy.MemcStorage
import Yarmproxy.Requests

/-! # Requests for one backend

The requests that are handed to a single backend, and how far `CreateCommand` gets in the first
bytes of one: it waits, it answers with an error, or it makes the command and reports a place in
the request that the command can go on from. -/
namespace Yarmproxy

/-- The bytes `d` begin with `r`, or they begin it. -/
def Agrees (r d : Bytes) : Prop := r <+: d ∨ d <+: r

instance (r d : Bytes) : Decidable (Agrees r d) := inferInstanceAs (Decidable (_ ∨ _))

namespace Agrees
variable {r d d' : Bytes} {n : ℕ}

theorem mono (hd : d <+: d') (h : Agrees r d') : Agrees r d := by
  rcases h with hr | hr
  · exact List.prefix_or_prefix_of_prefix hr hd
  · exact .inr (hd.trans hr)

theorem content (h : Agrees r d) : ∃ rest, d = (r ++ rest).take d.length := by
  rcases h with ⟨rest, rfl⟩ | hr
  · exact ⟨rest, (List.take_length ..).symm⟩
  · refine ⟨[], ?_⟩
    rw [List.append_nil]
    exact List.prefix_iff_eq_take.mp hr

theorem take_eq (h : Agrees r d) (hr : n ≤ r.length) (hd : n ≤ d.length) : d.take n = r.take n := by
  obtain ⟨rest, he⟩ := h.content
  rw [he, List.take_take, Nat.min_eq_left hd, List.take_append_of_le_length hr]

theorem prefix_of_le {p : Bytes} (h : Agrees r d) (hp : p <+: d) (hle : p.length ≤ r.length) :
    p <+: r := by
  have htake := h.take_eq hle hp.length_le
  rw [← List.prefix_iff_eq_take.mp hp] at htake
  rw [htake]
  exact List.take_prefix ..

end Agrees

/-- A Redis array with a verb of the first two kinds, or a request of the text protocol. The byte
count of a storage command is its fourth word; behind it may stand a unique number or `noreply`. -/
inductive SingleRequest where
  | redis (its : List Item) (verb : verbOf its = .basic ∨ verbOf its = .set)
  | memcBasic (verb : Bytes) (words : List Bytes)
      (known : memcCommandNames.lookup verb = some .basic) (some_word : words ≠ [])
      (plain : ∀ w ∈ words, IsKey w)
  | memcSet (verb : Bytes) (words : List Bytes) (body : Bytes)
      (known : memcCommandNames.lookup verb = some .set) (plain : ∀ w ∈ words, IsWord w)
      (count : ∃ w, words[3]? = some w ∧ Decimal w body.length) (some_body : body ≠ [])

namespace SingleRequest

def bytes : SingleRequest → Bytes
  | .redis its _ => encodeArray its
  | .memcBasic verb words .. => requestLine verb words
  | .memcSet verb words body .. => requestLine verb words ++ (body ++ crlf)

/-- An array is small enough for an `int`. The last word of a storage line counts the body, which
is small enough with its line end, or it reads as 0, -1 or -2, which is refused. -/
def Fits : SingleRequest → Prop
  | .redis its _ => (encodeArray its).length < 2 ^ 31
  | .memcBasic .. => True
  | .memcSet _ words body .. => ∃ w, words.getLast? = some w ∧
    (atoi w = body.length ∧ body.length + 2 < 2 ^ 31 ∨ -2 ≤ atoi w ∧ atoi w ≤ 0)

/-- What it means for the command of a request that `n` bytes have been parsed and `missing` bulks
have not. -/
def Marks (r : SingleRequest) (kind : SingleKind) (missing n : ℕ) : Prop :=
  match r, kind with
  | .redis its _, .redisSet => missing ≤ its.length ∧
    n = (serializePrefix its.length).length + itemStart its (its.length - missing)
  | .redis .., .redisBasic | .memcBasic .., .memcBasic | .memcSet .., .memcSet => n = r.bytes.length
  | _, _ => False

variable {r : SingleRequest} {kind : SingleKind} {missing n : ℕ}

theorem Marks.le (h : r.Marks kind missing n) : n ≤ r.bytes.length := by
  cases r with
  | redis its verb =>
    cases kind with
    | redisSet =>
      have hle := itemStart_le its (its.length - missing)
      have hlen := length_encodeArray its
      rw [h.2, bytes, hlen]
      omega
    | redisBasic => exact Nat.le_of_eq h
    | _ => exact False.elim h
  | memcBasic =>
    cases kind with
    | memcBasic => exact Nat.le_of_eq h
    | _ => exact False.elim h
  | memcSet =>
    cases kind with
    | memcSet => exact Nat.le_of_eq h
    | _ => exact False.elim h

theorem Marks.eq (h : r.Marks kind missing n) (hm : kind = .redisSet → missing = 0) :
    n = r.bytes.length := by
  cases r with
  | redis its verb =>
    cases kind with
    | redisSet =>
      have hlen := length_encodeArray its
      rw [h.2, hm rfl, Nat.sub_zero, itemStart, List.take_length, bytes, hlen]
    | redisBasic => exact h
    | _ => exact False.elim h
  | memcBasic =>
    cases kind with
    | memcBasic => exact h
    | _ => exact False.elim h
  | memcSet =>
    cases kind with
    | memcSet => exact h
    | _ => exact False.elim h

end SingleRequest

/-- The class with one backend that is constructed, and the bulks it has yet to parse. -/
def Created.single : Created → Option (SingleKind × ℕ)
  | .redisBasic _ => some (.redisBasic, 0)
  | .redisSet ba => some (.redisSet, ba.absentBulks)
  | .memcSet _ => some (.memcSet, 0)
  | .memcBasic _ => some (.memcBasic, 0)
  | _ => none

section Creation
variable {bufferSize n k : ℕ} {buf : Ptr} {created : Created}

/-- The command that is made of a request: an answer, or one that knows its place in it. -/
def Made (r : SingleRequest) (k : ℕ) (created : Created) : Prop :=
  (∃ reply, created = .error reply) ∨
    ∃ kind missing, created.single = some (kind, missing) ∧ r.Marks kind missing k

theorem createCommand_noLine (hp : memchr buf.rest (ch '\n') n = none)
    (hc : createCommand bufferSize buf n = some (k, some created)) :
    ∃ reply, created = .error reply := by
  rw [createCommand, hp] at hc
  dsimp only at hc
  split at hc
  · obtain ⟨-, hcr⟩ := Prod.mk.inj (Option.some.inj hc)
    exact ⟨_, (Option.some.inj hcr).symm⟩
  · cases hc

theorem verb_ne_nil {its : List Item} (hv : verbOf its = .basic ∨ verbOf its = .set) :
    its ≠ [] := by
  rintro rfl
  rcases hv with hv | hv
  · exact absurd hv (by decide)
  · exact absurd hv (by decide)

theorem Begun.of_agrees {its : List Item} (hne : its ≠ [])
    (hsmall : (encodeArray its).length < 2 ^ 31)
    (hn : n ≤ buf.rest.length) (ha : Agrees (encodeArray its) (buf.bytes n))
    (hl : ch '\n' ∈ buf.bytes n) : Begun its buf n := by
  have hlen : (buf.bytes n).length = n := by rw [Ptr.bytes, List.length_take]; omega
  obtain ⟨rest, hbs⟩ := ha.content
  rw [hlen] at hbs
  refine ⟨hne, hsmall, hn, ⟨rest, hbs⟩, Nat.le_of_not_lt fun hlt => ?_⟩
  rw [hbs, encodeArray, List.append_assoc] at hl
  exact newline_not_mem_serializePrefix hlt hl

theorem Begun.absentBulks {its : List Item} (h : Begun its buf n) :
    (BulkArray.parsedArray buf its n).absentBulks =
      its.length - (BulkArray.parsedArray buf its n).presentBulks := by
  have hlt := length_lt_of_small h.small
  have hle : (BulkArray.parsedArray buf its n).presentBulks ≤ its.length := by
    rw [BulkArray.presentBulks, BulkArray.items_parsedArray]
    exact length_presentItems_le ..
  have hsub := subSize_eq hle (show its.length < 2 ^ 64 by omega)
  rw [BulkArray.absentBulks, h.totalBulks, hsub]

theorem Begun.createRedis_marks {its : List Item} (h : Begun its buf n)
    (hv : verbOf its = .basic ∨ verbOf its = .set)
    (hc : createRedis buf n = some (k, some created)) :
    ∃ kind missing, created.single = some (kind, missing) ∧
      (SingleRequest.redis its hv).Marks kind missing k := by
  rw [h.createRedis_eq, switchOn] at hc
  split at hc
  · cases hc
  split at hc
  swap
  · cases hc
  rcases hv with hv | hv
  · simp only [hv, createRedisCommand, Option.bind_eq_bind, Option.bind_eq_some_iff] at hc
    obtain ⟨done, hdone, hc⟩ := hc
    cases done with
    | false => cases hc
    | true =>
      simp only [Bool.not_true, Bool.false_eq_true, if_false, Option.bind_eq_some_iff] at hc
      obtain ⟨total, ht, hc⟩ := hc
      obtain ⟨rfl, hcr⟩ := Prod.mk.inj (Option.some.inj hc)
      obtain rfl := Option.some.inj hcr
      exact ⟨_, _, rfl, Option.some.inj (ht.symm.trans (h.totalSize hdone).1)⟩
  · simp only [hv, createRedisCommand] at hc
    split at hc
    · cases hc
    obtain ⟨key, -, hc⟩ := Option.bind_eq_some_iff.mp hc
    obtain ⟨done, -, hc⟩ := Option.bind_eq_some_iff.mp hc
    split at hc
    · cases hc
    obtain ⟨rfl, hcr⟩ := Prod.mk.inj (Option.some.inj hc)
    obtain rfl := Option.some.inj hcr
    refine ⟨_, _, rfl, ?_, ?_⟩
    · rw [h.absentBulks]
      exact Nat.sub_le ..
    · have hle : (BulkArray.parsedArray buf its n).presentBulks ≤ its.length := by
        rw [BulkArray.presentBulks, BulkArray.items_parsedArray]
        exact length_presentItems_le ..
      rw [h.parsedSize, h.absentBulks, Nat.sub_sub_self hle]

theorem redis_made {its : List Item} (hv : verbOf its = .basic ∨ verbOf its = .set)
    (hsmall : (encodeArray its).length < 2 ^ 31) (hn : n ≤ buf.rest.length)
    (ha : Agrees (encodeArray its) (buf.bytes n))
    (hc : createCommand bufferSize buf n = some (k, some created)) :
    Made (.redis its hv) k created := by
  cases hp : memchr buf.rest (ch '\n') n with
  | none => exact .inl (createCommand_noLine hp hc)
  | some p =>
    obtain ⟨hmem, hlt⟩ := mem_of_memchr hp
    have hb := Begun.of_agrees (verb_ne_nil hv) hsmall hn ha hmem
    obtain ⟨rest, hm⟩ := hb.content
    have hstar : buf.rest.getD 0 0 = ch '*' := by
      rw [getD_of_take hm (by omega), encodeArray, List.append_assoc, serializePrefix_eq]
      rfl
    rw [createCommand_star hstar (by rw [hp]; rfl)] at hc
    exact .inr (hb.createRedis_marks hv hc)

theorem line_received {text more : Bytes} (hlf : ch '\n' ∉ text)
    (ha : Agrees (text ++ [ch '\n'] ++ more) (buf.bytes n)) (hl : ch '\n' ∈ buf.bytes n) :
    (text ++ [ch '\n']).length ≤ n ∧ ∃ tail, buf.rest = text ++ [ch '\n'] ++ tail := by
  have hbytes : (buf.bytes n).length ≤ n := List.length_take_le ..
  have hle : (text ++ [ch '\n']).length ≤ (buf.bytes n).length := by
    apply Nat.le_of_not_lt
    intro hlt
    have htake := ha.take_eq (n := (buf.bytes n).length) (by rw [List.length_append]; omega) le_rfl
    rw [List.length_append, List.length_singleton] at hlt
    rw [List.take_length, List.append_assoc, List.take_append_of_le_length (by omega)] at htake
    rw [htake] at hl
    exact hlf (List.mem_of_mem_take hl)
  refine ⟨hle.trans hbytes, ?_⟩
  have htake := ha.take_eq (List.prefix_append ..).length_le hle
  rw [List.take_left] at htake
  obtain ⟨tail, ht⟩ : text ++ [ch '\n'] <+: buf.rest := by
    rw [← htake]
    exact (List.take_prefix ..).trans (List.take_prefix ..)
  exact ⟨tail, ht.symm⟩

theorem createCommand_agreeing {verb more : Bytes} {words : List Bytes} {t : MemcCommandType}
    (known : memcCommandNames.lookup verb = some t) (hw : ∀ w ∈ words, IsKey w)
    (ha : Agrees (requestLine verb words ++ more) (buf.bytes n))
    (hc : createCommand bufferSize buf n = some (k, some created)) :
    (∃ reply, created = .error reply) ∨
      (requestLine verb words).length ≤ n ∧ ∃ tail, buf.rest = requestLine verb words ++ tail ∧
        createMemc buf n (requestLine verb words).length = some (k, some created) := by
  have hv : verb ∈ memcCommandNames.map Prod.fst := List.mem_map_of_mem (Lists.mem_of_lookup known)
  cases hp : memchr buf.rest (ch '\n') n with
  | none => exact .inl (createCommand_noLine hp hc)
  | some p =>
    obtain ⟨hmem, -⟩ := mem_of_memchr hp
    rw [requestLine_eq] at ha
    obtain ⟨hle, tail, ht⟩ := line_received (lf_notMem_line hv hw) ha hmem
    rw [← requestLine_eq] at hle ht
    rw [createCommand_requestLine bufferSize hv hw ht hle] at hc
    exact .inr ⟨hle, tail, ht, hc⟩

theorem memcBasic_made {verb : Bytes} {words : List Bytes}
    (known : memcCommandNames.lookup verb = some .basic) (hne : words ≠ [])
    (hw : ∀ w ∈ words, IsKey w) (ha : Agrees (requestLine verb words) (buf.bytes n))
    (hc : createCommand bufferSize buf n = some (k, some created)) :
    Made (.memcBasic verb words known hne hw) k created := by
  rw [← List.append_nil (requestLine verb words)] at ha
  refine (createCommand_agreeing known hw ha hc).imp_right fun ⟨hle, tail, ht, hc⟩ => ?_
  have htype : getMemcCommandType (buf.bytes (requestLine verb words).length) = .basic := by
    rw [bytes_requestLine ht,
      getMemcCommandType_requestLine
        (verb_plain _ (List.mem_map_of_mem (Lists.mem_of_lookup known))).1 hne, known]
    rfl
  simp only [createMemc, htype] at hc
  obtain ⟨rfl, hcr⟩ := Prod.mk.inj (Option.some.inj hc)
  obtain rfl := Option.some.inj hcr
  exact ⟨_, _, rfl, rfl⟩

theorem memcSet_cut {verb body : Bytes} {words : List Bytes}
    (known : memcCommandNames.lookup verb = some .set) (hw : ∀ w ∈ words, IsWord w)
    (count : ∃ w, words[3]? = some w ∧ Decimal w body.length) (hne : body ≠ [])
    (hf : (SingleRequest.memcSet verb words body known hw count hne).Fits) (hs : n < 2 ^ 31)
    (ha : Agrees (requestLine verb words ++ (body ++ crlf)) (buf.bytes n))
    (hc : createCommand bufferSize buf n = some (k, some created)) :
    (∃ reply, created = .error reply) ∨ created.single = some (.memcSet, 0) ∧
      k = (requestLine verb words ++ (body ++ crlf)).length ∧ k < 2 ^ 63 := by
  obtain ⟨w, hlast, hcount⟩ := hf
  obtain ⟨init, rfl⟩ := List.getLast?_eq_some_iff.mp hlast
  rcases createCommand_agreeing known (fun w hm => (hw w hm).isKey) ha hc
    with he | ⟨hle, tail, ht, hc⟩
  · exact .inl he
  have htype : getMemcCommandType (buf.bytes (requestLine verb (init ++ [w])).length) = .set := by
    rw [bytes_requestLine ht,
      getMemcCommandType_requestLine
        (verb_plain _ (List.mem_map_of_mem (Lists.mem_of_lookup known))).1 (by simp), known]
    rfl
  simp only [createMemc, htype] at hc
  obtain ⟨⟨key, v⟩, hparse, hc⟩ := Option.bind_eq_some_iff.mp hc
  have hvalue := memcSetParseQuery_lastWord (hw w (by simp)) ht hparse
  obtain ⟨hlow, hhigh⟩ := atoi_bounds w
  dsimp only at hc
  split at hc
  · obtain ⟨-, hcr⟩ := Prod.mk.inj (Option.some.inj hc)
    exact .inl ⟨_, (Option.some.inj hcr).symm⟩
  next hgt =>
    obtain ⟨rfl, hcr⟩ := Prod.mk.inj (Option.some.inj hc)
    obtain rfl := Option.some.inj hcr
    refine .inr ⟨rfl, ?_⟩
    rw [hvalue] at hgt ⊢
    rcases hcount with ⟨hv, hb⟩ | hv
    · have hlen := (bodySum_framed_iff (n := body.length) hlow hhigh
        (show (requestLine verb (init ++ [w])).length < 2 ^ 63 by omega)).mpr
        ⟨List.length_pos_iff.mpr hne, .inl ⟨hb, hv⟩⟩
      rw [hlen.2, List.length_append, List.length_append, Nat.add_assoc]
      exact ⟨rfl, by omega⟩
    · exact absurd ((bodySum_le_two_iff hlow hhigh).mpr hv) hgt

theorem SingleRequest.made {r : SingleRequest} (hf : r.Fits) (hn : n ≤ buf.rest.length)
    (hs : n < 2 ^ 31) (ha : Agrees r.bytes (buf.bytes n))
    (hc : createCommand bufferSize buf n = some (k, some created)) : Made r k created := by
  cases r with
  | redis its verb => exact redis_made verb hf hn ha hc
  | memcBasic verb words known hne hw => exact memcBasic_made known hne hw ha hc
  | memcSet verb words body known hw count hne =>
    exact (memcSet_cut known hw count hne hf hs ha hc).imp_right fun h => ⟨_, _, h.1, h.2.1⟩

theorem not_star_of_agrees {verb more : Bytes} {words : List Bytes} {t : MemcCommandType}
    (known : memcCommandNames.lookup verb = some t) (hw : ∀ w ∈ words, IsKey w)
    (ha : Agrees (requestLine verb words ++ more) (buf.bytes n)) (hl : ch '\n' ∈ buf.bytes n) :
    buf.rest.getD 0 0 ≠ ch '*' := by
  have hv : verb ∈ memcCommandNames.map Prod.fst := List.mem_map_of_mem (Lists.mem_of_lookup known)
  obtain ⟨-, -, hstar, hne⟩ := verb_plain verb hv
  rw [requestLine_eq] at ha
  obtain ⟨-, tail, ht⟩ := line_received (lf_notMem_line hv hw) ha hl
  obtain ⟨c, cs, rfl⟩ := List.exists_cons_of_ne_nil hne
  rw [ht]
  exact hstar

theorem SingleRequest.understood {r : SingleRequest} (hf : r.Fits) (hn : n ≤ buf.rest.length)
    (hs : n < 2 ^ 31) (ha : Agrees r.bytes (buf.bytes n)) : Understood bufferSize buf n := by
  refine .inr ⟨fun hstar hl => ?_, fun k key hc => ?_⟩
  · cases r with
    | redis its verb =>
      obtain ⟨rest, hbs⟩ := ha.content
      exact ⟨its, rest, verb_ne_nil verb, hf, hbs⟩
    | memcBasic verb words known hne hw =>
      rw [bytes, ← List.append_nil (requestLine verb words)] at ha
      exact absurd hstar (not_star_of_agrees known hw ha hl)
    | memcSet verb words body known hw count hne =>
      exact absurd hstar (not_star_of_agrees known (fun w hm => (hw w hm).isKey) ha hl)
  · cases r with
    | memcSet verb words body known hw count hne =>
      rcases memcSet_cut known hw count hne hf hs ha hc with ⟨reply, he⟩ | ⟨-, hk, hlt⟩
      · cases he
      · refine ⟨?_, hlt⟩
        have hbody := List.length_pos_iff.mpr hne
        rw [hk, List.length_append, List.length_append]
        omega
    | _ =>
      rcases made hf hn hs ha hc with ⟨reply, he⟩ | ⟨kind, missing, hsingle, hm⟩
      · cases he
      · obtain ⟨rfl, rfl⟩ := Prod.mk.inj (Option.some.inj hsingle)
        exact False.elim hm

end Creation
end Yarmproxy
