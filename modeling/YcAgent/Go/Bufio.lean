import YcAgent.Go.Stream

/-!
`bufio.Reader.ReadBytes` over an `io.LimitReader` over a connection. The peer's
bytes arrive in chunks of any size, and a read takes what has arrived, as far as
there is room for it. What the reads hand out does not depend on the chunks: it
is the text of the connection up to the limit.
-/

namespace YcAgent.Go

open Lib.Lines

/-- What a connection still delivers: a chunk at a time, and the error its reads
end with, which is `EOF` if the peer closes it. -/
structure Conn where
  chunks : List Bytes
  chunks_ok : ∀ chunk ∈ chunks, chunk ≠ []
  ending : String

def Conn.bytes (conn : Conn) : Bytes := conn.chunks.flatten

def Conn.read (conn : Conn) (room : Nat) : Bytes × Option String × Conn :=
  match h : conn.chunks with
  | [] => ([], some conn.ending, conn)
  | chunk :: rest =>
    have hrest : ∀ c ∈ rest, c ≠ [] := fun c hc =>
      conn.chunks_ok c (h ▸ List.mem_cons_of_mem _ hc)
    if hlong : room < chunk.length then
      (chunk.take room, none,
        ⟨chunk.drop room :: rest, by
          intro c hc
          rcases List.mem_cons.mp hc with rfl | hc
          · rw [ne_eq, List.drop_eq_nil_iff, Nat.not_le]
            exact hlong
          · exact hrest c hc, conn.ending⟩)
    else (chunk, none, ⟨rest, hrest, conn.ending⟩)

def eof : String := "EOF"

structure LimitedReader where
  conn : Conn
  n : Nat

def LimitedReader.read (l : LimitedReader) (room : Nat) :
    Bytes × Option String × LimitedReader :=
  if l.n = 0 then ([], some eof, l)
  else
    let (data, err, conn) := l.conn.read (min room l.n)
    (data, err, ⟨conn, l.n - data.length⟩)

/-- `bufio.Reader`: the bytes it holds, the error that is to follow them, and
where more come from. -/
structure BufReader where
  buf : Bytes
  err : Option String
  src : LimitedReader

def bufSize : Nat := 4096

def newReader (src : LimitedReader) : BufReader := ⟨[], none, src⟩

def BufReader.fill (r : BufReader) : BufReader :=
  let (data, err, src) := r.src.read (bufSize - r.buf.length)
  ⟨r.buf ++ data, err, src⟩

theorem Conn.read_spec (conn : Conn) {room : Nat} (hroom : 0 < room) :
    conn.bytes = (conn.read room).1 ++ (conn.read room).2.2.bytes ∧
      (conn.read room).1.length ≤ room ∧
      (conn.read room).2.2.ending = conn.ending ∧
      ((conn.read room).2.1 = none ∧ (conn.read room).1 ≠ [] ∨
        (conn.read room).2.1 = some conn.ending ∧ conn.bytes = []) := by
  obtain ⟨chunks, hok, ending⟩ := conn
  cases chunks with
  | nil => exact ⟨rfl, Nat.zero_le _, rfl, .inr ⟨rfl, rfl⟩⟩
  | cons chunk rest =>
    have hne : chunk ≠ [] := hok chunk List.mem_cons_self
    simp only [Conn.read, Conn.bytes]
    split
    · next hlong =>
        refine ⟨?_, ?_, rfl, .inl ⟨rfl, ?_⟩⟩
        · rw [List.flatten_cons, List.flatten_cons, ← List.append_assoc, List.take_append_drop]
        · exact List.length_take_le _ _
        · rw [ne_eq, List.take_eq_nil_iff, not_or]
          exact ⟨Nat.ne_of_gt hroom, hne⟩
    · next hshort => exact ⟨rfl, Nat.not_lt.mp hshort, rfl, .inl ⟨rfl, hne⟩⟩

def LimitedReader.bytes (l : LimitedReader) : Bytes := l.conn.bytes.take l.n

def LimitedReader.ending (l : LimitedReader) : String :=
  if l.conn.bytes.length < l.n then l.conn.ending else eof

theorem LimitedReader.read_spec (l : LimitedReader) {room : Nat} (hroom : 0 < room) :
    l.conn.bytes = (l.read room).1 ++ (l.read room).2.2.conn.bytes ∧
      (l.read room).1.length + (l.read room).2.2.n = l.n ∧
      (l.read room).1.length ≤ room ∧ (l.read room).2.2.ending = l.ending ∧
      ((l.read room).2.1 = none ∧ (l.read room).1 ≠ [] ∨
        (l.read room).2.1 = some l.ending ∧ l.bytes = [] ∧ (l.read room).1 = []) := by
  by_cases hn : l.n = 0
  · have hending : l.ending = eof := if_neg (by omega)
    have hbytes : l.bytes = [] := by rw [LimitedReader.bytes, hn, List.take_zero]
    have hread : l.read room = ([], some eof, l) := if_pos hn
    rw [hread]
    exact ⟨rfl, Nat.zero_add _, Nat.zero_le _, rfl, .inr ⟨by rw [hending], hbytes, rfl⟩⟩
  · have hpos : 0 < min room l.n := by omega
    obtain ⟨hfront, hlength, hending, hcases⟩ := l.conn.read_spec hpos
    simp only [LimitedReader.read, hn, if_false]
    generalize l.conn.read (min room l.n) = out at *
    obtain ⟨data, err, conn⟩ := out
    dsimp only at *
    have hsame : (LimitedReader.mk conn (l.n - data.length)).ending = l.ending := by
      rw [LimitedReader.ending, LimitedReader.ending, hending, hfront, List.length_append]
      congr 1
      rw [eq_iff_iff]
      dsimp only
      omega
    refine ⟨hfront, by omega, by omega, hsame, ?_⟩
    rcases hcases with hdata | ⟨herr, hnone⟩
    · exact .inl hdata
    · refine .inr ⟨?_, ?_, ?_⟩
      · rw [herr, LimitedReader.ending, hnone, if_pos]
        exact Nat.pos_of_ne_zero hn
      · rw [LimitedReader.bytes, hnone, List.take_nil]
      · rw [hnone] at hfront
        exact (List.append_eq_nil_iff.mp hfront.symm).1

theorem LimitedReader.bytes_read (l : LimitedReader) {room : Nat} (hroom : 0 < room) :
    l.bytes = (l.read room).1 ++ (l.read room).2.2.bytes := by
  obtain ⟨hfront, hlength, _⟩ := l.read_spec hroom
  rw [LimitedReader.bytes, hfront, ← hlength, List.take_length_add_append, LimitedReader.bytes]

namespace BufReader

def rest (r : BufReader) : Bytes := r.buf ++ if r.err.isNone then r.src.bytes else []

def ending (r : BufReader) : String := r.err.getD r.src.ending

/-- The bytes taken from the connection count against the limit. -/
def Took (r r' : BufReader) : Prop :=
  ∃ taken, r.src.conn.bytes = taken ++ r'.src.conn.bytes ∧ taken.length + r'.src.n = r.src.n

theorem Took.refl (r : BufReader) : Took r r := ⟨[], rfl, Nat.zero_add _⟩

theorem Took.trans {r₁ r₂ r₃ : BufReader} (h : Took r₁ r₂) (h' : Took r₂ r₃) : Took r₁ r₃ := by
  obtain ⟨first, hfirst, hlength⟩ := h
  obtain ⟨second, hsecond, hlength'⟩ := h'
  refine ⟨first ++ second, by rw [hfirst, hsecond, List.append_assoc], ?_⟩
  rw [List.length_append]
  omega

def budget (r : BufReader) : Nat := r.src.n + if r.err.isNone then 1 else 0

theorem fill_spec {r : BufReader} (herr : r.err = none) (hroom : r.buf.length < bufSize) :
    r.fill.rest = r.rest ∧ r.fill.ending = r.ending ∧ Took r r.fill ∧ r.fill.budget < r.budget := by
  have hpos : 0 < bufSize - r.buf.length := by omega
  have hbytes := r.src.bytes_read hpos
  obtain ⟨hfront, hlength, _, hending, hcases⟩ := r.src.read_spec hpos
  have hfill : r.fill = ⟨r.buf ++ (r.src.read (bufSize - r.buf.length)).1,
      (r.src.read (bufSize - r.buf.length)).2.1, (r.src.read (bufSize - r.buf.length)).2.2⟩ := rfl
  generalize r.src.read (bufSize - r.buf.length) = out at *
  obtain ⟨data, err, src⟩ := out
  dsimp only at *
  have htook : Took r r.fill := ⟨data, by rw [hfill]; exact hfront, by rw [hfill]; exact hlength⟩
  rcases hcases with ⟨rfl, hdata⟩ | ⟨rfl, hnone, rfl⟩
  · have hsome := List.length_pos_of_ne_nil hdata
    refine ⟨?_, ?_, htook, ?_⟩
    · simp [rest, hfill, herr, hbytes]
    · simp [ending, hfill, herr, hending]
    · simp only [budget, hfill, herr]
      omega
  · refine ⟨?_, ?_, htook, ?_⟩
    · simp [rest, hfill, herr, hnone]
    · simp [ending, hfill, herr]
    · simp only [budget, hfill, herr, Option.isNone_some, Option.isNone_none]
      simp only [List.length_nil] at hlength
      simp
      omega

/-- `ReadBytes('\n')`; `frags` are the full buffers it has put aside. -/
def collect (r : BufReader) (frags : Bytes) : Bytes × Option String × BufReader :=
  match takeLine newline r.buf with
  | some (line, rest) => (frags ++ line.text, none, { r with buf := rest })
  | none =>
    match _herr : r.err with
    | some err => (frags ++ r.buf, some err, { r with buf := [], err := none })
    | none =>
      if _hfull : bufSize ≤ r.buf.length then collect { r with buf := [] } (frags ++ r.buf)
      else collect r.fill frags
termination_by (r.budget, r.buf.length)
decreasing_by
  · have hpos : 0 < r.buf.length := Nat.lt_of_lt_of_le (by decide) _hfull
    exact Prod.Lex.right _ hpos
  · exact Prod.Lex.left _ _ (fill_spec _herr (Nat.not_le.mp _hfull)).2.2.2

def readBytes (r : BufReader) : Bytes × Option String × BufReader := r.collect []

theorem collect_spec (r : BufReader) (frags : Bytes) :
    (r.collect frags).1 = frags ++ (Go.readBytes r.rest).1 ∧
      (r.collect frags).2.1 = (if (Go.readBytes r.rest).2.1 then some r.ending else none) ∧
      Took r (r.collect frags).2.2 ∧
      ((r.collect frags).2.1 = none → (r.collect frags).2.2.rest = (Go.readBytes r.rest).2.2 ∧
        (r.collect frags).2.2.ending = r.ending) := by
  fun_induction BufReader.collect r frags with
  | case1 r frags line rest hline =>
    have hbuf : r.buf = line.text ++ rest := by
      rcases takeLine_cases r.buf with ⟨_, hnone⟩ | ⟨line', rest', hbuf, hsome⟩
      · rw [hnone] at hline
        cases hline
      · rw [hsome] at hline
        cases hline
        exact hbuf
    have hread : Go.readBytes r.rest =
        (line.text, false, rest ++ if r.err.isNone then r.src.bytes else []) := by
      rw [BufReader.rest, hbuf, List.append_assoc, readBytes_line]
    rw [hread]
    exact ⟨rfl, rfl, .refl r, fun _ => ⟨rfl, rfl⟩⟩
  | case2 r frags hline err herr =>
    have hread : Go.readBytes r.rest = (r.buf, true, []) := by
      simp [BufReader.rest, herr, Go.readBytes, hline]
    rw [hread]
    refine ⟨rfl, ?_, .refl r, fun hnone => by cases hnone⟩
    simp [ending, herr]
  | case3 r frags hline herr hfull ih =>
    have hfree : newline ∉ r.buf := by
      rcases takeLine_cases r.buf with ⟨hfree, _⟩ | ⟨line, rest, _, hsome⟩
      · exact hfree
      · rw [hsome] at hline
        cases hline
    have hrest : r.rest = r.buf ++ ({ r with buf := [] } : BufReader).rest := rfl
    rw [hrest, readBytes_append hfree]
    obtain ⟨hdata, herr', htook, hmore⟩ := ih
    exact ⟨by rw [hdata, List.append_assoc], herr', htook, hmore⟩
  | case4 r frags hline herr hfull ih =>
    obtain ⟨hrest, hending, htook, _⟩ := fill_spec herr (Nat.not_le.mp hfull)
    rw [hrest, hending] at ih
    obtain ⟨hdata, herr', htook', hmore⟩ := ih
    exact ⟨hdata, herr', htook.trans htook', hmore⟩

theorem readBytes_cases (r : BufReader) :
    (newline ∉ r.rest ∧ r.readBytes.1 = r.rest ∧ r.readBytes.2.1 = some r.ending ∧
        Took r r.readBytes.2.2) ∨
      ∃ line : Line newline, r.rest = line.text ++ r.readBytes.2.2.rest ∧
        r.readBytes.1 = line.text ∧ r.readBytes.2.1 = none ∧
        r.readBytes.2.2.ending = r.ending ∧ Took r r.readBytes.2.2 := by
  obtain ⟨hdata, herr, htook, hmore⟩ := r.collect_spec []
  rw [List.nil_append] at hdata
  rcases takeLine_cases r.rest with ⟨hfree, _⟩ | ⟨line, rest, hrest, _⟩
  · left
    rw [readBytes_of_free hfree] at hdata herr
    exact ⟨hfree, hdata, herr, htook⟩
  · right
    rw [hrest, readBytes_line] at hdata herr hmore
    obtain ⟨hleft, hending⟩ := hmore herr
    refine ⟨line, ?_, hdata, herr, hending, htook⟩
    rw [hrest]
    exact congrArg _ hleft.symm

theorem rest_length_lt {r r' : BufReader} {data : Bytes} (h : r.readBytes = (data, none, r')) :
    r'.rest.length < r.rest.length := by
  rcases r.readBytes_cases with ⟨_, _, herr, _⟩ | ⟨line, hrest, _⟩
  · rw [h] at herr
    cases herr
  · rw [h] at hrest
    have hlen := congrArg List.length hrest
    rw [List.length_append, Line.text_length] at hlen
    dsimp only at hlen
    omega

end BufReader

end YcAgent.Go
