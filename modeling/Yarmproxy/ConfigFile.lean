import Yarmproxy.Config

/-! # The format of the configuration file

What a line says where clusters are declared, as a grammar over the words of the line and the blocks
it stands in, and the clusters that such lines describe. The handlers of `Config` play no part. -/
namespace Yarmproxy
namespace Config

inductive Entry where
  /-- not about clusters -/
  | aside
  | cluster
  | close
  | backends
  | protocol (p : ProtocolType)
  | namespaces (names : List Bytes)
  | backend (b : Backend)
  deriving DecidableEq, Repr

namespace Entry

def protocols : Entry → List ProtocolType
  | .protocol p => [p]
  | _ => []

def names : Entry → List Bytes
  | .namespaces names => names
  | _ => []

def members : Entry → List Backend
  | .backend b => [b]
  | _ => []

/-- The line says something about the cluster whose block it stands in. -/
def fills : Entry → Bool
  | .protocol _ | .namespaces _ | .backend _ => true
  | _ => false

def blocksAfter (blocks : List Bytes) : Entry → List Bytes
  | .cluster => blocks ++ [ascii "cluster"]
  | .backends => blocks ++ [ascii "backends"]
  | .close => blocks.dropLast
  | _ => blocks

end Entry

/-- The outermost block starts with `cluster`. -/
def insideCluster : List Bytes → Bool
  | [] => false
  | block :: _ => (ascii "cluster").isPrefixOf block

/-- The form of a line inside the blocks `blocks`. -/
inductive Says (makeAddress : Bytes → Option UInt32) (bound : ℤ) (blocks : List Bytes) :
    List Bytes → Entry → Prop where
  | aside {words : List Bytes} (outside : insideCluster blocks = false)
      (other : blocks = [] → words.head? ≠ some (ascii "cluster")) :
      Says makeAddress bound blocks words .aside
  | cluster (outermost : blocks = []) :
      Says makeAddress bound blocks [ascii "cluster", ascii "\x7b"] .cluster
  | close (inside : insideCluster blocks = true) :
      Says makeAddress bound blocks [ascii "\x7d"] .close
  | redis (inside : insideCluster blocks = true) :
      Says makeAddress bound blocks [ascii "protocol", ascii "redis"] (.protocol .redis)
  | memcached (inside : insideCluster blocks = true) :
      Says makeAddress bound blocks [ascii "protocol", ascii "memcached"] (.protocol .memcached)
  | namespaces {names : List Bytes} (inside : insideCluster blocks = true) (nonempty : names ≠ [])
      (fit : ∀ ns ∈ names, ns.length ≤ intToSize bound) :
      Says makeAddress bound blocks (ascii "namespace" :: names) (.namespaces names)
  | backends (inside : insideCluster blocks = true) :
      Says makeAddress bound blocks [ascii "backends", ascii "\x7b"] .backends
  | backend {host port weight : Bytes} {address : UInt32} {p w : ℤ}
      (place : blocks = [ascii "cluster", ascii "backends"]) (colon : ch ':' ∉ host)
      (addressed : makeAddress host = some address) (port_eq : stoi port = some p)
      (weight_eq : stoi weight = some w) (port_pos : 0 < p) (weight_pos : 0 < w) :
      Says makeAddress bound blocks [ascii "backend", host ++ ch ':' :: port, weight]
        (.backend ⟨address, p, w.toNat⟩)

/-- The lines say `entries`, the first of them inside `blocks`. -/
inductive Reads (makeAddress : Bytes → Option UInt32) (bound : ℤ) :
    List Bytes → List (List Bytes) → List Entry → Prop where
  | nil {blocks : List Bytes} : Reads makeAddress bound blocks [] []
  | cons {blocks words : List Bytes} {lines : List (List Bytes)} {e : Entry} {es : List Entry} :
      Says makeAddress bound blocks words e →
      Reads makeAddress bound (e.blocksAfter blocks) lines es →
      Reads makeAddress bound blocks (words :: lines) (e :: es)

def wordsOf (lines : List Bytes) : List (List Bytes) :=
  (lines.map (tokenizeLine · none)).filter (· ≠ [])

def blocksAfter (blocks : List Bytes) (es : List Entry) : List Bytes :=
  es.foldl Entry.blocksAfter blocks

/-- The lines say `es` up to one that says nothing. -/
def Stops (makeAddress : Bytes → Option UInt32) (bound : ℤ) (blocks : List Bytes)
    (lines : List (List Bytes)) (es : List Entry) : Prop :=
  ∃ front line rest, lines = front ++ line :: rest ∧ Reads makeAddress bound blocks front es ∧
    ∀ e, ¬ Says makeAddress bound (blocksAfter blocks es) line e

/-- A cluster by the lines of its block: the last protocol, and all namespaces and backends. -/
def declaredCluster (es : List Entry) : Cluster where
  protocol := (es.flatMap Entry.protocols).getLast?.getD .none
  namespaces := es.flatMap Entry.names
  backends := es.flatMap Entry.members

/-- One cluster for each line that opens one, by the lines up to the next. -/
def declaredClusters : List Entry → List Cluster
  | [] => []
  | .cluster :: es => declaredCluster (es.takeWhile (· ≠ .cluster)) :: declaredClusters es
  | _ :: es => declaredClusters es

def Grounded (es : List Entry) : Prop := ∀ e ∈ es.takeWhile (· ≠ .cluster), e.fills = false

section Format
variable {makeAddress : Bytes → Option UInt32} {bound : ℤ} {blocks words : List Bytes}
  {lines : List (List Bytes)} {e : Entry} {es : List Entry}

theorem Says.fits (h : Says makeAddress bound blocks words e) :
    ∀ ns ∈ e.names, ns.length ≤ intToSize bound := by
  intro ns hns
  cases h with
  | namespaces _ _ fit => exact fit ns hns
  | _ => cases hns

theorem Says.of_fits {bound' : ℤ} (h : Says makeAddress bound blocks words e)
    (hfit : ∀ ns ∈ e.names, ns.length ≤ intToSize bound') :
    Says makeAddress bound' blocks words e := by
  cases h with
  | aside outside other => exact .aside outside other
  | cluster outermost => exact .cluster outermost
  | close inside => exact .close inside
  | redis inside => exact .redis inside
  | memcached inside => exact .memcached inside
  | namespaces inside nonempty _ => exact .namespaces inside nonempty hfit
  | backends inside => exact .backends inside
  | backend place colon addressed port weight hp hw =>
    exact .backend place colon addressed port weight hp hw

theorem Reads.fits (h : Reads makeAddress bound blocks lines es) :
    ∀ e ∈ es, ∀ ns ∈ e.names, ns.length ≤ intToSize bound := by
  induction h with
  | nil => exact fun e he => by cases he
  | cons hline _ ih => exact List.forall_mem_cons.mpr ⟨hline.fits, ih⟩

theorem mem_names_of_declared {cl : Cluster} {ns : Bytes} (hcl : cl ∈ declaredClusters es)
    (hns : ns ∈ cl.namespaces) : ∃ e ∈ es, ns ∈ e.names := by
  fun_induction declaredClusters es with
  | case1 => cases hcl
  | case2 es ih =>
    rcases List.mem_cons.mp hcl with rfl | hcl
    · obtain ⟨e, he, hns⟩ := List.mem_flatMap.mp hns
      exact ⟨e, List.mem_cons_of_mem _ ((List.takeWhile_prefix _).subset he), hns⟩
    · obtain ⟨e, he, hns⟩ := ih hcl
      exact ⟨e, List.mem_cons_of_mem _ he, hns⟩
  | case3 e es _ ih =>
    obtain ⟨e, he, hns⟩ := ih hcl
    exact ⟨e, List.mem_cons_of_mem _ he, hns⟩

theorem Grounded.of_cons (h : Grounded (e :: es)) :
    e.fills = false ∧ (e = .cluster ∨ Grounded es) := by
  by_cases he : e = .cluster
  · subst he
    exact ⟨rfl, .inl rfl⟩
  · rw [Grounded, List.takeWhile_cons_of_pos (by simpa using he)] at h
    exact ⟨h e List.mem_cons_self, .inr fun e' he' => h e' (List.mem_cons_of_mem _ he')⟩

theorem Grounded.cons (hf : e.fills = false) (h : e = .cluster ∨ Grounded es) :
    Grounded (e :: es) := by
  by_cases he : e = .cluster
  · rw [Grounded, List.takeWhile_cons_of_neg (by simpa using he)]
    exact fun e he => by cases he
  · rw [Grounded, List.takeWhile_cons_of_pos (by simpa using he)]
    exact List.forall_mem_cons.mpr ⟨hf, h.resolve_left he⟩

theorem Reads.grounded (h : Reads makeAddress bound blocks lines es) (hout : blocks = []) :
    Grounded es := by
  induction h with
  | nil => exact fun e he => by cases he
  | cons hline _ ih =>
    subst hout
    cases hline with
    | aside => exact .cons rfl (.inr (ih rfl))
    | cluster => exact .cons rfl (.inl rfl)
    | close inside => cases inside
    | redis inside => cases inside
    | memcached inside => cases inside
    | namespaces inside => cases inside
    | backends inside => cases inside
    | backend place => cases place

end Format
end Config
end Yarmproxy
