import Yarmproxy.Commands
import Yarmproxy.MemcGetSplit

/-! # What the memcached constructors look at

The key loops of the three memcached command classes look for a blank or a carriage return and
know nothing of the line they were called for. A `KeyScan` records which bytes the loops
examine; it is then decided for which lines they stay inside. -/
namespace Yarmproxy

/-- The first and the last memory offset each loop examines, and the keys handed to `Locate`,
as offsets from the start of the line. -/
structure KeyScan where
  loops : List (ℕ × ℕ)
  keys : List (ℕ × ℕ)
  deriving DecidableEq, Repr

namespace KeyScan

/-- The loops of the `MemcGetCommand` constructor. -/
def get (buf : Ptr) (size : ℕ) : Option KeyScan := do
  let keys ← MemcGetCommand.scanKeys buf.rest size size 4
  some ⟨keys.map fun k => (buf.off + k.1, buf.off + k.2), keys⟩

def set (buf : Ptr) (cmdLen : ℕ) : Option KeyScan := do
  let m := buf.rest
  let p ← skipPast (ch ' ') m
  let n ← (m.drop (p + 1)).findIdx? (· == ch ' ')
  let start ← (buf.mem.take (buf.off + cmdLen - 2)).reverse.findIdx? (· == ch ' ')
  some ⟨[(buf.off, buf.off + p - 1), (buf.off + p + 1, buf.off + p + 1 + n),
    (buf.off + cmdLen - 3 - start, buf.off + cmdLen - 3)], [(p, p + n + 1)]⟩

/-- The loops of the `MemcBasicCommand` constructor. -/
def basic (buf : Ptr) : Option KeyScan := do
  let m := buf.rest
  let p ← skipPast (ch ' ') m
  let n ← (m.drop (p + 1)).findIdx? fun c => c == ch ' ' || c == ch '\r'
  some ⟨[(buf.off, buf.off + p - 1), (buf.off + p + 1, buf.off + p + 1 + n)], [(p, p + n + 1)]⟩

/-- The scan for a line of `cmdLineBytes` bytes; the other classes do not look for a key. -/
def of : MemcCommandType → Ptr → ℕ → Option KeyScan
  | .get, buf, cmdLineBytes => get buf cmdLineBytes
  | .set, buf, cmdLineBytes => set buf cmdLineBytes
  | .basic, buf, _ => basic buf
  | .yarmstats, _, _ | .unsupported, _, _ => some ⟨[], []⟩

def text (buf : Ptr) (key : ℕ × ℕ) : Bytes := (buf.rest.drop key.1).take (key.2 - key.1)

theorem memcBasicKey_eq (buf : Ptr) :
    AnyCommand.memcBasicKey buf = (basic buf).bind fun s => s.keys.head?.map (text buf) := by
  simp only [AnyCommand.memcBasicKey, basic, Option.bind_eq_bind]
  cases skipPast (ch ' ') buf.rest with
  | none => rfl
  | some p =>
    simp only [Option.bind_some]
    cases (buf.rest.drop (p + 1)).findIdx? fun c => c == ch ' ' || c == ch '\r' with
    | none => rfl
    | some n => simp [text, Nat.add_assoc]

theorem memcSetParseQuery_eq (buf : Ptr) (cmdLen : ℕ) :
    (memcSetParseQuery buf cmdLen).map Prod.fst =
      (set buf cmdLen).bind fun s => s.keys.head?.map (text buf) := by
  simp only [memcSetParseQuery, set, Option.bind_eq_bind]
  cases skipPast (ch ' ') buf.rest with
  | none => rfl
  | some p =>
    simp only [Option.bind_some]
    cases (buf.rest.drop (p + 1)).findIdx? (· == ch ' ') with
    | none => rfl
    | some n =>
      simp only [Option.bind_some]
      cases (buf.mem.take (buf.off + cmdLen - 2)).reverse.findIdx? (· == ch ' ') with
      | none => rfl
      | some start => simp [text, Nat.add_assoc]

end KeyScan

def content (line : Bytes) : Bytes :=
  if line.dropLast.getLast? = some (ch '\r') then line.dropLast.dropLast else line.dropLast

/-- The bytes from `i` to `j` are a word between blanks of the line. -/
structure TokenAt (text : Bytes) (i j : ℕ) : Prop where
  lt : i < j
  le : j ≤ (content text).length
  plain : ch ' ' ∉ (text.drop i).take (j - i)
  start : i = 0 ∨ text[i - 1]? = some (ch ' ')
  stop : j = (content text).length ∨ text[j]? = some (ch ' ')

/-- The loops end, look at bytes of the line only, and find words of it. -/
def StaysInside (t : MemcCommandType) (buf : Ptr) (n : ℕ) : Prop :=
  ∃ s, KeyScan.of t buf n = some s ∧
    (∀ r ∈ s.loops, buf.off ≤ r.1 ∧ r.2 < buf.off + n) ∧
    ∀ k ∈ s.keys, TokenAt (buf.bytes n) k.1 k.2

/-- The text behind `get `: keys one blank apart. The loop leaves the last two bytes of the
line alone, whatever they are. -/
inductive KeyRun : Bytes → Prop where
  | short {t} : t.length ≤ 2 → KeyRun t
  | last {k} : IsKey k → KeyRun (k ++ crlf)
  | more {k t} : IsKey k → KeyRun t → KeyRun (k ++ ch ' ' :: t)

def behind (line : Bytes) : Bytes := line.drop ((line.takeWhile (· ≠ ch ' ')).length + 1)

def SetRun (t : Bytes) : Prop := ∃ k r, t = k ++ ch ' ' :: r ∧ k ≠ [] ∧ ch ' ' ∉ k

def BasicRun (t : Bytes) : Prop :=
  ∃ k r, t = k ++ r ∧ k ≠ [] ∧ ch ' ' ∉ k ∧ ch '\r' ∉ k.tail ∧ (r.head? = some (ch ' ') ∨ r = crlf)

def Scannable : MemcCommandType → Bytes → Prop
  | .get, line => KeyRun (line.drop 4)
  | .set, line => SetRun (behind line)
  | .basic, line => BasicRun (behind line)
  | .yarmstats, _ | .unsupported, _ => True

section Token
variable {a k r : Bytes} {d : UInt8}

theorem getElem?_cut : ((a ++ (k ++ d :: r)) ++ [ch '\n'])[a.length + k.length]? = some d := by
  rw [List.append_assoc, List.getElem?_append_right (by omega), Nat.add_sub_cancel_left]
  simp

theorem content_length (text : Bytes) :
    text.length - 1 ≤ (content (text ++ [ch '\n'])).length ∧
      (content (text ++ [ch '\n'])).length ≤ text.length := by
  rw [content, List.dropLast_concat]
  split
  · rw [List.length_dropLast]
    omega
  · omega

theorem content_length_cr (text : Bytes) :
    (content (text ++ [ch '\r'] ++ [ch '\n'])).length = text.length := by
  simp [content]

theorem tokenAt_iff (hd : d = ch ' ' ∨ d = ch '\r') :
    TokenAt ((a ++ (k ++ d :: r)) ++ [ch '\n']) a.length (a.length + k.length) ↔
      k ≠ [] ∧ ch ' ' ∉ k ∧
      (a.length = 0 ∨ ((a ++ (k ++ d :: r)) ++ [ch '\n'])[a.length - 1]? = some (ch ' ')) ∧
      (d = ch ' ' ∨ r = []) := by
  have hkey : (((a ++ (k ++ d :: r)) ++ [ch '\n']).drop a.length).take
      (a.length + k.length - a.length) = k := by
    rw [List.append_assoc, List.drop_left, Nat.add_sub_cancel_left, List.append_assoc,
      List.take_left]
  have hat : ((a ++ (k ++ d :: r)) ++ [ch '\n'])[a.length + k.length]? = some d := getElem?_cut
  obtain ⟨hlow, hhigh⟩ := content_length (a ++ (k ++ d :: r))
  have hcr : r = [] → d = ch '\r' →
      (content ((a ++ (k ++ d :: r)) ++ [ch '\n'])).length = a.length + k.length := by
    rintro rfl rfl
    rw [← List.append_assoc, content_length_cr, List.length_append]
  simp only [List.length_append, List.length_cons] at hlow hhigh
  constructor
  · intro h
    refine ⟨?_, ?_, h.start, ?_⟩
    · rintro rfl
      exact absurd h.lt (by simp)
    · have := h.plain
      rwa [hkey] at this
    · rcases h.stop with hs | hs
      · refine Or.inr (List.length_eq_zero_iff.mp ?_)
        omega
      · rw [hat] at hs
        exact Or.inl (Option.some.inj hs)
  · rintro ⟨hne, hplain, hstart, hstop⟩
    have hpos := List.length_pos_iff.mpr hne
    refine ⟨by omega, by omega, by rwa [hkey], hstart, ?_⟩
    rcases hstop with rfl | rfl
    · exact Or.inr hat
    · rcases hd with rfl | rfl
      · exact Or.inr hat
      · exact Or.inl (hcr rfl rfl).symm

end Token

def separates (c : UInt8) : Bool := c == ch ' ' || c == ch '\r'

theorem separates_iff {c : UInt8} : separates c = true ↔ c = ch ' ' ∨ c = ch '\r' := by
  simp [separates]

theorem isKey_iff {k : Bytes} (hlf : ch '\n' ∉ k) :
    IsKey k ↔ k ≠ [] ∧ ∀ c ∈ k, separates c = false := by
  constructor
  · intro h
    refine ⟨h.ne_nil, fun c hc => ?_⟩
    simp [separates, (h.plain c hc).1, (h.plain c hc).2.1]
  · rintro ⟨hne, h⟩
    refine ⟨hne, fun c hc => ?_⟩
    have hs := h c hc
    simp only [separates, Bool.or_eq_false_iff, beq_eq_false_iff_ne] at hs
    refine ⟨hs.1, hs.2, ?_⟩
    rintro rfl
    exact hlf hc

theorem not_keyRun {u : Bytes} (hu : ∀ c ∈ u, separates c = false) (hlen : 2 ≤ u.length) :
    ¬ KeyRun (u ++ [ch '\n']) := by
  have hno : ∀ c, separates c = true → c ∉ u ++ [ch '\n'] := by
    intro c hc hmem
    rcases List.mem_append.mp hmem with hmem | hmem
    · rw [hu c hmem] at hc
      cases hc
    · rw [List.mem_singleton.mp hmem] at hc
      exact absurd hc (by decide)
  intro h
  generalize ht : u ++ [ch '\n'] = t at h hno
  cases h with
  | short hs =>
    rw [← ht, List.length_append, List.length_singleton] at hs
    omega
  | last _ => exact hno (ch '\r') (by decide) (List.mem_append_right _ (by decide))
  | more _ _ => exact hno (ch ' ') (by decide) (by simp)

theorem keyRun_split {k r : Bytes} {d : UInt8} (hk : ∀ c ∈ k, separates c = false)
    (hlf : ch '\n' ∉ k) (hd : separates d = true) (hlen : 2 < (k ++ d :: r).length) :
    KeyRun (k ++ d :: r) ↔ k ≠ [] ∧ (d = ch ' ' ∧ KeyRun r ∨ d :: r = crlf) := by
  constructor
  · intro h
    generalize ht : k ++ d :: r = t at h hlen
    cases h with
    | short hs => omega
    | @last k' hk' =>
      have hplain := ((isKey_iff (fun hmem => (hk'.plain _ hmem).2.2 rfl)).mp hk').2
      obtain ⟨rfl, rfl, rfl⟩ :=
        Lists.split_unique (show k ++ d :: r = k' ++ ch '\r' :: [ch '\n'] from ht)
        hk hd hplain (by decide)
      exact ⟨hk'.ne_nil, Or.inr rfl⟩
    | @more k' t hk' hrun =>
      have hplain := ((isKey_iff (fun hmem => (hk'.plain _ hmem).2.2 rfl)).mp hk').2
      obtain ⟨rfl, rfl, rfl⟩ := Lists.split_unique ht hk hd hplain (by decide)
      exact ⟨hk'.ne_nil, Or.inl ⟨rfl, hrun⟩⟩
  · rintro ⟨hne, ⟨rfl, hrun⟩ | hend⟩
    · exact .more ((isKey_iff hlf).mpr ⟨hne, hk⟩) hrun
    · rw [hend]
      exact .last ((isKey_iff hlf).mpr ⟨hne, hk⟩)

section Get
variable {text tail : Bytes}

def GetInside (text tail : Bytes) (fuel p : ℕ) : Prop :=
  ∃ keys, MemcGetCommand.scanKeys (text ++ ch '\n' :: tail) (text.length + 1) fuel p = some keys ∧
    ∀ k ∈ keys, k.2 < text.length + 1 ∧ TokenAt (text ++ [ch '\n']) k.1 k.2

theorem getInside_end {fuel p : ℕ} (hp : text.length - 1 ≤ p) : GetInside text tail fuel p :=
  ⟨[], MemcGetCommand.scanKeys_end (by omega) _, by simp⟩

theorem getInside_succ {fuel p : ℕ} (hp : p < text.length - 1) :
    GetInside text tail (fuel + 1) p ↔ ∃ n,
      ((text ++ ch '\n' :: tail).drop p).findIdx? separates = some n ∧
        p + n < text.length + 1 ∧ TokenAt (text ++ [ch '\n']) p (p + n) ∧
        GetInside text tail fuel (p + n + 1) := by
  unfold GetInside
  rw [MemcGetCommand.scanKeys_succ (show p < text.length + 1 - 2 by omega)]
  simp only [Option.bind_eq_some_iff, Option.map_eq_some_iff]
  constructor
  · rintro ⟨_, ⟨n, hn, keys, hkeys, rfl⟩, h⟩
    obtain ⟨hlt, htok⟩ := h (p, p + n) (by simp)
    exact ⟨n, hn, hlt, htok, keys, hkeys, fun k hk => h k (by simp [hk])⟩
  · rintro ⟨n, hn, hlt, htok, keys, hkeys, h⟩
    refine ⟨_, ⟨n, hn, keys, hkeys, rfl⟩, ?_⟩
    intro k hk
    rcases List.mem_cons.mp hk with rfl | hk
    · exact ⟨hlt, htok⟩
    · exact h k hk

theorem staysInside_get_iff {buf : Ptr} (hrest : buf.rest = text ++ ch '\n' :: tail)
    (hline : buf.bytes (text.length + 1) = text ++ [ch '\n']) :
    StaysInside .get buf (text.length + 1) ↔ GetInside text tail (text.length + 1) 4 := by
  unfold StaysInside GetInside
  simp only [KeyScan.of, KeyScan.get, hrest, hline, Option.bind_eq_bind, Option.bind_eq_some_iff,
    Option.some.injEq]
  constructor
  · rintro ⟨_, ⟨keys, hkeys, rfl⟩, hloops, htokens⟩
    refine ⟨keys, hkeys, fun k hk => ⟨?_, htokens k hk⟩⟩
    have := (hloops _ (List.mem_map_of_mem hk)).2
    simp only at this
    omega
  · rintro ⟨keys, hkeys, h⟩
    refine ⟨_, ⟨keys, hkeys, rfl⟩, ?_, fun k hk => (h k hk).2⟩
    intro r hr
    obtain ⟨k, hk, rfl⟩ := List.mem_map.mp hr
    have := (h k hk).1
    exact ⟨by simp only; omega, by simp only; omega⟩

theorem getInside_iff (hlf : ch '\n' ∉ text) (fuel : ℕ) : ∀ p, text.length + 1 ≤ fuel + p →
    ((text ++ [ch '\n'])[p - 1]? = some (ch ' ') ∧ 0 < p ∨
      (text ++ [ch '\n'])[p]? = some (ch ' ')) →
    (GetInside text tail fuel p ↔ KeyRun ((text ++ [ch '\n']).drop p)) := by
  induction fuel with
  | zero =>
    intro p hfuel _
    refine ⟨fun _ => .short ?_, fun _ => getInside_end (by omega)⟩
    rw [List.length_drop, List.length_append, List.length_singleton]
    omega
  | succ fuel ih =>
    intro p hfuel hstart
    by_cases hp : p < text.length - 1
    swap
    · refine ⟨fun _ => .short ?_, fun _ => getInside_end (by omega)⟩
      rw [List.length_drop, List.length_append, List.length_singleton]
      omega
    obtain ⟨a, u, rfl, rfl⟩ : ∃ a u, text = a ++ u ∧ p = a.length :=
      ⟨text.take p, text.drop p, (List.take_append_drop p text).symm, by
        rw [List.length_take]; omega⟩
    have hlen : 2 ≤ u.length := by
      rw [List.length_append] at hp
      omega
    have hmem : ((a ++ u) ++ ch '\n' :: tail).drop a.length = u ++ ch '\n' :: tail := by
      rw [List.append_assoc, List.drop_left]
    have hline : ((a ++ u) ++ [ch '\n']).drop a.length = u ++ [ch '\n'] := by
      rw [List.append_assoc, List.drop_left]
    rw [getInside_succ hp, hmem, hline]
    rcases Lists.split_or separates u with hu | ⟨k, d, r, rfl, hk, hd⟩
    · refine ⟨?_, fun h => absurd h (not_keyRun hu hlen)⟩
      rintro ⟨n, hn, hlt, -⟩
      have := Lists.scan_past hu (by decide) hn
      rw [List.length_append] at hlt
      omega
    · have hsep := separates_iff.mp hd
      have hscan : ((k ++ d :: r) ++ ch '\n' :: tail).findIdx? separates = some k.length := by
        rw [List.append_assoc]
        exact Lists.findIdx?_stops hk hd
      have hsplit : (k ++ d :: r) ++ [ch '\n'] = k ++ d :: (r ++ [ch '\n']) := by simp
      have hnext : d = ch ' ' →
          (GetInside (a ++ (k ++ d :: r)) tail fuel (a.length + k.length + 1) ↔
          KeyRun (r ++ [ch '\n'])) := by
        rintro rfl
        have hdrop : ((a ++ (k ++ ch ' ' :: r)) ++ [ch '\n']).drop (a.length + k.length + 1) =
            r ++ [ch '\n'] := by
          rw [← List.drop_drop, ← List.drop_drop, hline, hsplit, List.drop_left]
          rfl
        rw [ih _ (by omega) (Or.inl ⟨by rw [Nat.add_sub_cancel, getElem?_cut], by omega⟩), hdrop]
      rw [hsplit, keyRun_split hk (fun h => hlf (by simp [h])) hd (by simp; simp at hlen; omega)]
      constructor
      · rintro ⟨n, hn, -, htok, hrest⟩
        obtain rfl : k.length = n := Option.some.inj (hscan.symm.trans hn)
        obtain ⟨hne, -, -, hstop⟩ := (tokenAt_iff hsep).mp htok
        refine ⟨hne, ?_⟩
        rcases hsep with rfl | rfl
        · exact Or.inl ⟨rfl, (hnext rfl).mp hrest⟩
        · rcases hstop with habs | rfl
          · exact absurd habs (by decide)
          · exact Or.inr rfl
      · rintro ⟨hne, h⟩
        have hblank : ch ' ' ∉ k := fun hmem => absurd (hk _ hmem) (by decide)
        have hr : d = ch ' ' ∨ r = [] := by
          rcases h with ⟨hd', -⟩ | hend
          · exact Or.inl hd'
          · have := congrArg List.length hend
            simp only [List.length_cons, List.length_append, crlf, List.length_nil] at this
            exact Or.inr (List.length_eq_zero_iff.mp (by omega))
        refine ⟨k.length, hscan, by simp only [List.length_append, List.length_cons]; omega,
          (tokenAt_iff hsep).mpr ⟨hne, hblank, Or.inr ?_, hr⟩, ?_⟩
        · rcases hstart with ⟨hbefore, -⟩ | hat
          · exact hbefore
          · obtain ⟨c, cs, rfl⟩ := List.exists_cons_of_ne_nil hne
            rw [List.append_assoc, List.getElem?_append_right (by omega), Nat.sub_self] at hat
            obtain rfl : c = ch ' ' := by simpa using hat
            exact absurd (by simp) hblank
        · rcases h with ⟨hd', hrun⟩ | hend
          · exact (hnext hd').mpr hrun
          · refine getInside_end ?_
            have := congrArg List.length hend
            simp only [List.length_cons, List.length_append, crlf, List.length_nil] at this ⊢
            omega

end Get

section Key
variable {b : Bytes} {p : UInt8 → Bool}

/-- A key that starts the text `b` and is ended by a byte of `p` before the line is. -/
def EndedKey (p : UInt8 → Bool) (b : Bytes) : Prop :=
  ∃ c k d r, b = c :: (k ++ d :: r) ∧ (∀ x ∈ k, p x = false) ∧ p d = true ∧ ch ' ' ∉ c :: k ∧
    (d = ch ' ' ∨ r = [])

theorem keyLoop_iff (verb tail : Bytes) (hp : ∀ c, p c = true → c = ch ' ' ∨ c = ch '\r')
    (hlf : p (ch '\n') = false) :
    (∃ n, ((b ++ ch '\n' :: tail).drop 1).findIdx? p = some n ∧
        verb.length + 1 + 1 + n < verb.length + 1 + b.length + 1 ∧
        TokenAt ((verb ++ ch ' ' :: b) ++ [ch '\n']) (verb.length + 1) (verb.length + 1 + n + 1)) ↔
      EndedKey p b := by
  have htoken : ∀ c k d r, b = c :: (k ++ d :: r) → p d = true →
      (TokenAt ((verb ++ ch ' ' :: b) ++ [ch '\n']) (verb.length + 1)
        (verb.length + 1 + k.length + 1) ↔
        ch ' ' ∉ c :: k ∧ (d = ch ' ' ∨ r = [])) := by
    rintro c k d r rfl hd
    have hlen : (verb ++ [ch ' ']).length = verb.length + 1 := by simp
    have hsplit : (verb ++ [ch ' ']) ++ ((c :: k) ++ d :: r) = verb ++
        ch ' ' :: (c :: (k ++ d :: r)) := by
      simp
    have h := @tokenAt_iff (verb ++ [ch ' ']) (c :: k) r d (hp d hd)
    rw [hlen, hsplit] at h
    refine h.trans ⟨fun ⟨_, hplain, _, hstop⟩ => ⟨hplain, hstop⟩, fun ⟨hplain, hstop⟩ => ?_⟩
    exact ⟨by simp, hplain, Or.inr (by simp), hstop⟩
  constructor
  · rintro ⟨n, hn, hlt, htok⟩
    cases b with
    | nil =>
      simp only [List.length_nil] at hlt
      omega
    | cons c b =>
      simp only [List.cons_append, List.drop_one, List.tail_cons, List.length_cons] at hn hlt
      rcases Lists.split_or p b with hb | ⟨k, d, r, rfl, hk, hd⟩
      · have := Lists.scan_past hb hlf hn
        omega
      · rw [List.append_assoc] at hn
        obtain rfl : k.length = n := Option.some.inj ((Lists.findIdx?_stops hk hd).symm.trans hn)
        exact ⟨c, k, d, r, rfl, hk, hd, (htoken c k d r rfl hd).mp htok⟩
  · rintro ⟨c, k, d, r, hb, hk, hd, hplain, hstop⟩
    refine ⟨k.length, ?_, ?_, (htoken c k d r hb hd).mpr ⟨hplain, hstop⟩⟩
    · rw [hb]
      simp only [List.cons_append, List.drop_one, List.tail_cons, List.append_assoc]
      exact Lists.findIdx?_stops hk hd
    · rw [hb]
      simp only [List.length_cons, List.length_append]
      omega

theorem eq_concat_of_blank {k r : Bytes} (h : b ++ [ch '\n'] = k ++ ch ' ' :: r) :
    ∃ r', r = r' ++ [ch '\n'] ∧ b = k ++ ch ' ' :: r' := by
  rcases List.eq_nil_or_concat r with rfl | ⟨r', c, rfl⟩
  · obtain ⟨-, hc⟩ := List.append_inj' h rfl
    exact absurd hc (by decide)
  · rw [List.concat_eq_append, ← List.cons_append, ← List.append_assoc] at h
    obtain ⟨hb, hc⟩ := List.append_inj' h rfl
    obtain rfl := (List.cons.inj hc).1
    exact ⟨r', List.concat_eq_append, hb⟩

theorem endedKey_iff_setRun : EndedKey (· == ch ' ') b ↔ SetRun (b ++ [ch '\n']) := by
  constructor
  · rintro ⟨c, k, d, r, rfl, -, hd, hplain, -⟩
    obtain rfl : d = ch ' ' := by simpa using hd
    exact ⟨c :: k, r ++ [ch '\n'], by simp, by simp, hplain⟩
  · rintro ⟨k, r, h, hne, hplain⟩
    obtain ⟨r', rfl, rfl⟩ := eq_concat_of_blank h
    obtain ⟨c, k, rfl⟩ := List.exists_cons_of_ne_nil hne
    refine ⟨c, k, ch ' ', r', rfl, ?_, by simp, hplain, Or.inl rfl⟩
    intro x hx
    simp only [beq_eq_false_iff_ne]
    rintro rfl
    exact hplain (by simp [hx])

theorem endedKey_iff_basicRun : EndedKey separates b ↔ BasicRun (b ++ [ch '\n']) := by
  constructor
  · rintro ⟨c, k, d, r, rfl, hk, hd, hplain, hstop⟩
    refine ⟨c :: k, d :: (r ++ [ch '\n']), by simp, by simp, hplain, ?_, ?_⟩
    · exact fun hmem => absurd (hk _ hmem) (by decide)
    · rcases separates_iff.mp hd with rfl | rfl
      · exact Or.inl rfl
      · rcases hstop with habs | rfl
        · exact absurd habs (by decide)
        · exact Or.inr rfl
  · rintro ⟨k, t, h, hne, hplain, hcr, hend⟩
    obtain ⟨c, k, rfl⟩ := List.exists_cons_of_ne_nil hne
    have hk : ∀ x ∈ k, separates x = false := by
      intro x hx
      rw [← Bool.not_eq_true, separates_iff]
      rintro (rfl | rfl)
      · exact hplain (by simp [hx])
      · exact hcr hx
    rcases hend with hblank | rfl
    · obtain ⟨r, rfl⟩ : ∃ r, t = ch ' ' :: r := by
        cases t with
        | nil => simp at hblank
        | cons x r => exact ⟨r, by simpa using hblank⟩
      obtain ⟨r', rfl, rfl⟩ := eq_concat_of_blank h
      exact ⟨c, k, ch ' ', r', rfl, hk, by decide, hplain, Or.inl rfl⟩
    · have hb : b = c :: (k ++ [ch '\r']) := by
        have : b ++ [ch '\n'] = (c :: (k ++ [ch '\r'])) ++ [ch '\n'] := by
          rw [h]
          simp [crlf]
          decide
        exact List.append_cancel_right this
      exact ⟨c, k, ch '\r', [], hb, hk, by decide, hplain, Or.inr rfl⟩

end Key

section Line
variable {buf : Ptr} {text tail verb b : Bytes} {t : MemcCommandType}

theorem firstLine {size n : ℕ} (h : memchr buf.rest (ch '\n') size = some n) :
    ∃ text tail, buf.rest = text ++ ch '\n' :: tail ∧ ch '\n' ∉ text ∧ text.length = n := by
  have hidx : buf.rest.findIdx? (· == ch '\n') = some n := Lists.findIdx?_of_take h
  rcases Lists.split_or (· == ch '\n') buf.rest with hnone | ⟨k, d, r, hr, hk, hd⟩
  · rw [List.findIdx?_eq_none_iff.mpr hnone] at hidx
    cases hidx
  · obtain rfl : d = ch '\n' := by simpa using hd
    rw [hr, Lists.findIdx?_stops hk hd] at hidx
    exact ⟨k, r, hr, fun hmem => absurd (hk _ hmem) (by simp), Option.some.inj hidx⟩

theorem verb_split (htype : getMemcCommandType (text ++ [ch '\n']) = t) (ht : t ≠ .unsupported) :
    ∃ verb b, text = verb ++ ch ' ' :: b ∧ ch ' ' ∉ verb ∧ (verb, t) ∈ memcCommandNames := by
  have hmem : ((text ++ [ch '\n']).takeWhile (· ≠ ch ' '), t) ∈ memcCommandNames := by
    apply Lists.mem_of_lookup
    rw [getMemcCommandType] at htype
    cases hl : memcCommandNames.lookup ((text ++ [ch '\n']).takeWhile (· ≠ ch ' ')) with
    | none => exact absurd (by rw [← htype, hl]; rfl) ht
    | some v => rw [hl] at htype; exact congrArg some htype
  rcases Lists.split_or (· == ch ' ') (text ++ [ch '\n']) with hnone | ⟨verb, d, r, hr, hverb, hd⟩
  · -- the verb would reach over the line end
    have hall : (text ++ [ch '\n']).takeWhile (· ≠ ch ' ') = text ++ [ch '\n'] := by
      rw [List.takeWhile_eq_self_iff]
      intro c hc
      simpa using hnone c hc
    rw [hall] at hmem
    have := (verb_plain _ (List.mem_map_of_mem hmem)).2.1
    simp at this
  · obtain rfl : d = ch ' ' := by simpa using hd
    obtain ⟨b, rfl, hb⟩ := eq_concat_of_blank hr
    have hblank : ch ' ' ∉ verb := fun h => absurd (hverb _ h) (by simp)
    refine ⟨verb, b, hb, hblank, ?_⟩
    have htake : (text ++ [ch '\n']).takeWhile (· ≠ ch ' ') = verb := by
      rw [hr, List.takeWhile_append_of_pos, List.takeWhile_cons]
      · simp
      · intro c hc
        simpa using hverb c hc
    rwa [htake] at hmem

theorem behind_eq (hv : ch ' ' ∉ verb) :
    behind ((verb ++ ch ' ' :: b) ++ [ch '\n']) = b ++ [ch '\n'] := by
  have htake : ((verb ++ ch ' ' :: b) ++ [ch '\n']).takeWhile (· ≠ ch ' ') = verb := by
    rw [List.append_assoc, List.takeWhile_append_of_pos, List.cons_append, List.takeWhile_cons]
    · simp
    · intro c hc
      simp only [ne_eq, decide_not, Bool.not_eq_true', decide_eq_false_iff_not]
      rintro rfl
      exact hv hc
  rw [behind, htake, List.append_assoc, ← List.drop_drop, List.drop_left]
  rfl

structure CutLine (buf : Ptr) (verb b tail : Bytes) : Prop where
  rest : buf.rest = verb ++ ch ' ' :: (b ++ ch '\n' :: tail)
  verb_plain : ch ' ' ∉ verb

namespace CutLine

theorem skipPast (h : CutLine buf verb b tail) :
    skipPast (ch ' ') buf.rest = some (verb.length + 1) := by
  rw [Yarmproxy.skipPast, h.rest, Lists.findIdx?_stops _ (by simp)]
  · rfl
  · intro c hc
    simp only [beq_eq_false_iff_ne]
    rintro rfl
    exact h.verb_plain hc

theorem drop (h : CutLine buf verb b tail) :
    buf.rest.drop (verb.length + 1 + 1) = (b ++ ch '\n' :: tail).drop 1 := by
  rw [h.rest, ← List.drop_drop, ← List.drop_drop, List.drop_left]
  rfl

theorem bytes (h : CutLine buf verb b tail) :
    buf.bytes (verb.length + 1 + b.length + 1) = (verb ++ ch ' ' :: b) ++ [ch '\n'] := by
  have hlen : verb.length + 1 + b.length + 1 = ((verb ++ ch ' ' :: b) ++ [ch '\n']).length := by
    simp only [List.length_append, List.length_cons, List.length_nil]
    omega
  have hsplit : buf.rest = ((verb ++ ch ' ' :: b) ++ [ch '\n']) ++ tail := by simp [h.rest]
  rw [hlen, Ptr.bytes, hsplit, List.take_left]

theorem backScan (h : CutLine buf verb b tail) (hb : b ≠ []) :
    ∃ start, (buf.mem.take (buf.off + (verb.length + 1 + b.length + 1) - 2)).reverse.findIdx?
        (· == ch ' ') = some start ∧ start < b.length := by
  obtain ⟨b', c, rfl⟩ := (List.eq_nil_or_concat b).resolve_left hb
  obtain ⟨pre, hpre, hmem⟩ := Ptr.exists_mem_eq (show buf.rest ≠ [] by rw [h.rest]; simp)
  have hsplit : buf.mem = ((pre ++ verb) ++ ch ' ' :: b') ++ (c :: ch '\n' :: tail) := by
    rw [hmem, h.rest]
    simp
  have hlen : buf.off + (verb.length + 1 + (b'.concat c).length + 1) - 2 =
      ((pre ++ verb) ++ ch ' ' :: b').length := by
    simp only [List.length_append, List.length_cons, List.length_concat, hpre]
    omega
  rw [hlen, hsplit, List.take_left, List.reverse_append, List.reverse_cons, List.append_assoc,
    List.singleton_append]
  rcases Lists.split_or (· == ch ' ') b'.reverse with hnone | ⟨k, d, r, hr, hk, hd⟩
  · refine ⟨_, Lists.findIdx?_stops hnone (by simp), ?_⟩
    simp
  · have hlen := congrArg List.length hr
    simp only [List.length_reverse, List.length_append, List.length_cons] at hlen
    refine ⟨k.length, ?_, by simp only [List.length_concat]; omega⟩
    rw [hr, List.append_assoc]
    exact Lists.findIdx?_stops hk hd

theorem set_inside_iff (h : CutLine buf verb b tail) :
    StaysInside .set buf (verb.length + 1 + b.length + 1) ↔ SetRun (b ++ [ch '\n']) := by
  have hblank : ∀ c, (c == ch ' ') = true → c = ch ' ' ∨ c = ch '\r' := fun c hc => by simp_all
  rw [← endedKey_iff_setRun]
  constructor
  · rintro ⟨s, hs, hloops, hkeys⟩
    rw [← keyLoop_iff verb tail hblank (by decide), ← h.drop, ← h.bytes]
    simp only [KeyScan.of, KeyScan.set, h.skipPast, Option.bind_eq_bind, Option.bind_some,
      Option.bind_eq_some_iff, Option.some.injEq] at hs
    obtain ⟨n, hn, start, hstart, rfl⟩ := hs
    refine ⟨n, hn, ?_, hkeys (verb.length + 1, verb.length + 1 + n + 1) (by simp)⟩
    have :=
      (hloops (buf.off + (verb.length + 1) + 1, buf.off + (verb.length + 1) + 1 + n) (by simp)).2
    omega
  · intro hkey
    have hb : b ≠ [] := by
      obtain ⟨c, k, d, r, rfl, -⟩ := hkey
      simp
    rw [← keyLoop_iff verb tail hblank (by decide), ← h.drop, ← h.bytes] at hkey
    obtain ⟨n, hn, hlt, htok⟩ := hkey
    obtain ⟨start, hstart, hback⟩ := h.backScan hb
    refine ⟨⟨[(buf.off, buf.off + (verb.length + 1) - 1),
      (buf.off + (verb.length + 1) + 1, buf.off + (verb.length + 1) + 1 + n),
      (buf.off + (verb.length + 1 + b.length + 1) - 3 - start,
        buf.off + (verb.length + 1 + b.length + 1) - 3)],
      [(verb.length + 1, verb.length + 1 + n + 1)]⟩, ?_, ?_, ?_⟩
    · simp only [KeyScan.of, KeyScan.set, h.skipPast, Option.bind_eq_bind, Option.bind_some,
        Option.bind_eq_some_iff]
      exact ⟨n, hn, start, hstart, rfl⟩
    · intro r hr
      simp only [List.mem_cons, List.not_mem_nil, or_false] at hr
      rcases hr with rfl | rfl | rfl
      · exact ⟨le_rfl, by simp only; omega⟩
      · exact ⟨by simp only; omega, by simp only; omega⟩
      · exact ⟨by simp only; omega, by simp only; omega⟩
    · simpa using htok

theorem basic_inside_iff (h : CutLine buf verb b tail) :
    StaysInside .basic buf (verb.length + 1 + b.length + 1) ↔ BasicRun (b ++ [ch '\n']) := by
  rw [← endedKey_iff_basicRun, ← keyLoop_iff verb tail (fun _ => separates_iff.mp) (by decide),
    ← h.drop, ← h.bytes]
  constructor
  · rintro ⟨s, hs, hloops, hkeys⟩
    simp only [KeyScan.of, KeyScan.basic, h.skipPast, Option.bind_eq_bind, Option.bind_some,
      Option.bind_eq_some_iff, Option.some.injEq] at hs
    obtain ⟨n, hn, rfl⟩ := hs
    refine ⟨n, hn, ?_, hkeys (verb.length + 1, verb.length + 1 + n + 1) (by simp)⟩
    have :=
      (hloops (buf.off + (verb.length + 1) + 1, buf.off + (verb.length + 1) + 1 + n) (by simp)).2
    omega
  · rintro ⟨n, hn, hlt, htok⟩
    refine ⟨⟨[(buf.off, buf.off + (verb.length + 1) - 1),
      (buf.off + (verb.length + 1) + 1, buf.off + (verb.length + 1) + 1 + n)],
      [(verb.length + 1, verb.length + 1 + n + 1)]⟩, ?_, ?_, ?_⟩
    · simp only [KeyScan.of, KeyScan.basic, h.skipPast, Option.bind_eq_bind, Option.bind_some,
        Option.bind_eq_some_iff]
      exact ⟨n, hn, rfl⟩
    · intro r hr
      simp only [List.mem_cons, List.not_mem_nil, or_false] at hr
      rcases hr with rfl | rfl
      · exact ⟨le_rfl, by simp only; omega⟩
      · exact ⟨by simp only; omega, by simp only; omega⟩
    · simpa using htok

end CutLine

/-- The loops of a memcached constructor stay in the line and find words of it exactly when the
line is built as the class expects. -/
theorem memc_scan_inside_iff {size n : ℕ} (hn : memchr buf.rest (ch '\n') size = some n)
    (htype : getMemcCommandType (buf.bytes (n + 1)) = t) (ht : t = .get ∨ t = .set ∨ t = .basic) :
    StaysInside t buf (n + 1) ↔ Scannable t (buf.bytes (n + 1)) := by
  obtain ⟨text, tail, hrest, hlf, rfl⟩ := firstLine hn
  have hline : buf.bytes (text.length + 1) = text ++ [ch '\n'] := by
    have hsplit : buf.rest = (text ++ [ch '\n']) ++ tail := by simp [hrest]
    rw [Ptr.bytes, hsplit, List.take_left' (by simp)]
  rw [hline] at htype
  have hknown : t ≠ .unsupported := by rcases ht with rfl | rfl | rfl <;> decide
  obtain ⟨verb, b, rfl, hv, hmem⟩ := verb_split htype hknown
  have hcut : CutLine buf verb b tail := ⟨by simp [hrest], hv⟩
  have hlen : (verb ++ ch ' ' :: b).length + 1 = verb.length + 1 + b.length + 1 := by
    simp only [List.length_append, List.length_cons]
    omega
  rcases ht with rfl | rfl | rfl
  · have hverb : verb.length = 3 ∨ verb.length = 4 := by
      have : ∀ e ∈ memcCommandNames, e.2 = .get → e.1.length = 3 ∨ e.1.length = 4 := by decide
      exact this _ hmem rfl
    have hat : ((verb ++ ch ' ' :: b) ++ [ch '\n'])[verb.length]? = some (ch ' ') := by simp
    rw [staysInside_get_iff hrest hline, hline, Scannable]
    apply getInside_iff hlf _ 4 (by omega)
    rcases hverb with hverb | hverb
    · exact Or.inl ⟨by rw [← hat, hverb], by decide⟩
    · exact Or.inr (by rw [← hat, hverb])
  · rw [hline, Scannable, behind_eq hv, hlen]
    exact hcut.set_inside_iff
  · rw [hline, Scannable, behind_eq hv, hlen]
    exact hcut.basic_inside_iff

end Line

def shortSet : Ptr := ⟨ascii "set k\r\nget a b\r\n", 0⟩

/-- The second blank is found in the next request, and so is the key's end. -/
theorem shortSet_leaves_line :
    memchr shortSet.rest (ch '\n') 16 = some 6 ∧
      getMemcCommandType (shortSet.bytes 7) = .set ∧
      KeyScan.of .set shortSet 7 = some ⟨[(0, 3), (5, 10), (3, 4)], [(4, 10)]⟩ ∧
      ¬ StaysInside .set shortSet 7 := by
  have hscan : KeyScan.of .set shortSet 7 = some ⟨[(0, 3), (5, 10), (3, 4)], [(4, 10)]⟩ := by decide
  refine ⟨by decide, by decide, hscan, ?_⟩
  rintro ⟨s, hs, hloops, -⟩
  rw [hscan] at hs
  obtain rfl := Option.some.inj hs
  exact absurd (hloops (5, 10) (by simp)).2 (by decide)

def deleteKey : Ptr := ⟨ascii "delete k\r\n", 0⟩

theorem deleteKey_inside :
    memchr deleteKey.rest (ch '\n') 10 = some 9 ∧ StaysInside .basic deleteKey 10 := by
  have hn : memchr deleteKey.rest (ch '\n') 10 = some 9 := by decide
  refine ⟨hn, (memc_scan_inside_iff hn (by decide) (by decide)).mpr ?_⟩
  exact ⟨ascii "k", crlf, by decide, by decide, by decide, by decide, Or.inr rfl⟩

end Yarmproxy
