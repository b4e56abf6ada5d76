import Simvacation.Block
import Simvacation.Yasl
import Simvacation.Numerals

/-!
The yasl strings as `yasl.c` keeps them: a header with two `size_t` counters in
front of the bytes. A string is the header with all the bytes allocated behind
it. Sizes wrap at 64 bits, and each allocation may fail. A function that gets a
null pointer passes it on, which is what binding a failed call does.
-/

namespace Simvacation.YaslHeap

open CString Block Yasl

/-- A value of type `size_t`. -/
def sizeT (n : ℕ) : ℕ := n % 2 ^ 64

/-- The difference of two of them. -/
def sizeSub (a b : ℕ) : ℕ := sizeT (a + 2 ^ 64 - b)

structure Yastrhdr where
  len : ℕ
  free : ℕ
  buf : Bytes
  deriving DecidableEq, Repr

/-- `sizeof(struct yastrhdr)` -/
def hdrSize : ℕ := 16

def YASL_MAX_PREALLOC : ℕ := 1024 * 1024

/-- The answers of the allocator during a call. No object is larger than a
`ptrdiff_t` can measure. -/
structure Malloc where
  succeeds : ℕ → Bool
  junk : ℕ → UInt8
  limit : ∀ n, succeeds n = true → n < 2 ^ 63

/-- An allocator that fails only beyond the largest object. -/
def plenty : Malloc := ⟨fun n => n < 2 ^ 63, fun _ => 0, fun n h => by simpa using h⟩

/-- Fresh memory; the cells behind a header are those beyond its size. -/
def Malloc.malloc (m : Malloc) (size : ℕ) : Checked Bytes :=
  if m.succeeds size then
    if hdrSize ≤ size then .ok ((List.range (size - hdrSize)).map m.junk) else .error .fault
  else .error .null

def Malloc.calloc (m : Malloc) (size : ℕ) : Checked Bytes :=
  if m.succeeds size then
    if hdrSize ≤ size then .ok (List.replicate (size - hdrSize) 0) else .error .fault
  else .error .null

def Malloc.realloc (m : Malloc) (buf : Bytes) (size : ℕ) : Checked Bytes :=
  if m.succeeds size then
    if hdrSize ≤ size then .ok (resize buf (size - hdrSize) m.junk) else .error .fault
  else .error .null

def yaslnew (m : Malloc) (init : Option Bytes) (initlen : ℕ) : Checked Yastrhdr :=
  match init with
  | some init => do
    let buf ← m.malloc (sizeT (hdrSize + initlen + 1))
    let s ← read init 0 initlen
    let buf ← write buf 0 s
    let buf ← store buf initlen 0
    .ok ⟨initlen, 0, buf⟩
  | none => do
    let buf ← m.calloc (sizeT (hdrSize + initlen + 1))
    let buf ← store buf initlen 0
    .ok ⟨initlen, 0, buf⟩

def yasldup (m : Malloc) (str : Yastrhdr) : Checked Yastrhdr := yaslnew m (some str.buf) str.len

def yaslempty (m : Malloc) : Checked Yastrhdr := yaslnew m (some [0]) 0

/-- Room for `addlen` bytes behind the string, and one for the NUL. -/
def yaslMakeRoomFor (m : Malloc) (str : Yastrhdr) (addlen : ℕ) : Checked Yastrhdr :=
  if addlen ≤ str.free then .ok str
  else do
    let newlen := sizeT (str.len + addlen)
    let newlen :=
      sizeT (if newlen < YASL_MAX_PREALLOC then newlen * 2 else newlen + YASL_MAX_PREALLOC)
    let buf ← m.realloc str.buf (sizeT (hdrSize + newlen + 1))
    .ok { str with free := sizeSub newlen str.len, buf := buf }

/-- The old block stays where it is when there is no smaller one. -/
def yaslRemoveFreeSpace (m : Malloc) (str : Yastrhdr) : Checked Yastrhdr :=
  match m.realloc str.buf (sizeT (hdrSize + str.len + 1)) with
  | .ok buf => .ok { str with free := 0, buf := buf }
  | .error .null => .ok str
  | .error e => .error e

def yaslAllocSize (str : Yastrhdr) : ℕ := sizeT (hdrSize + str.len + str.free + 1)

def yaslIncrLen (str : Yastrhdr) (incr : ℕ) : Checked Yastrhdr :=
  if str.free < incr then .error .abort
  else do
    let len := sizeT (str.len + incr)
    let buf ← store str.buf len 0
    .ok ⟨len, sizeSub str.free incr, buf⟩

def yaslclear (str : Yastrhdr) : Checked Yastrhdr := do
  let buf ← store str.buf 0 0
  .ok ⟨0, sizeT (str.free + str.len), buf⟩

def yaslgrowzero (m : Malloc) (str : Yastrhdr) (len : ℕ) : Checked Yastrhdr :=
  if len ≤ str.len then .ok str
  else do
    let curlen := str.len
    let str ← yaslMakeRoomFor m str (sizeSub len curlen)
    let buf ← fill str.buf curlen (sizeT (len - curlen + 1)) 0
    let totlen := sizeT (str.len + str.free)
    .ok ⟨len, sizeSub totlen len, buf⟩

def yaslcpylen (m : Malloc) (dest : Yastrhdr) (src : Bytes) (len : ℕ) : Checked Yastrhdr := do
  let dest ← (if sizeT (dest.free + dest.len) < len
    then yaslMakeRoomFor m dest (sizeSub len dest.len)
    else .ok dest)
  let totlen := sizeT (dest.free + dest.len)
  let s ← read src 0 len
  let buf ← write dest.buf 0 s
  let buf ← store buf len 0
  .ok ⟨len, sizeSub totlen len, buf⟩

def yaslcpy (m : Malloc) (dest : Yastrhdr) (src : Bytes) : Checked Yastrhdr := do
  let len ← strlen src
  yaslcpylen m dest src len

/-- The search for one byte; `n` positions of the set are left, from `i` on. -/
def mapcharFrom (source target : Bytes) (c : UInt8) : ℕ → ℕ → Checked UInt8
  | 0, _ => .ok c
  | n + 1, i => do
    let s ← load source i
    if c = s then load target i else mapcharFrom source target c n (i + 1)

def yaslmapchars (str : Yastrhdr) (source target : Bytes) (setlen : ℕ) : Checked Yastrhdr := do
  let buf ← replace (fun c => mapcharFrom source target c setlen 0) str.len 0 str.buf
  .ok { str with buf := buf }

/-- The sums are taken in `ptrdiff_t`, where that of the greatest `stop` and one overflows. -/
def yaslrange (str : Yastrhdr) (start stop : ℤ) : Checked Yastrhdr :=
  let len : ℤ := str.len
  if str.len = 0 then .ok str
  else do
    let start := if start < 0 then max (len + start) 0 else start
    let stop := if stop < 0 then max (len + stop) 0 else stop
    let newlen := if start > stop then 0 else sizeT (stop - start + 1).toNat
    let newlen' :=
      if newlen = 0 then 0
      else if start ≥ len then 0
      else if stop ≥ len then (if start > len - 1 then 0 else sizeT (len - 1 - start + 1).toNat)
      else newlen
    let start' := if newlen = 0 then 0 else start.toNat
    let buf ← (if start' ≠ 0 ∧ newlen' ≠ 0 then move str.buf 0 start' newlen' else .ok str.buf)
    let buf ← store buf newlen' 0
    .ok ⟨newlen', sizeT (str.free + sizeSub str.len newlen'), buf⟩

/-- What `strchr` finds in `cset`, whose NUL it finds as well. -/
def inSet (cset : Bytes) (c : UInt8) : Bool := c = 0 || cset.contains c

/-- The inner loop: the next byte to keep, or an index beyond the string. -/
def stripSkip (buf cset : Bytes) (len : ℕ) : ℕ → ℕ → Checked ℕ
  | 0, i => .ok i
  | fuel + 1, i => do
    let c ← load buf i
    if inSet cset c ∧ i ≤ len then stripSkip buf cset len fuel (i + 1) else .ok i

def stripLoop (cset : Bytes) (len : ℕ) : ℕ → Bytes → ℕ → ℕ → Checked (Bytes × ℕ)
  | 0, buf, _, newlen => .ok (buf, newlen)
  | fuel + 1, buf, i, newlen =>
    if i ≤ len then do
      let i ← stripSkip buf cset len (len + 2 - i) i
      if i ≤ len then do
        let c ← load buf i
        let buf ← store buf newlen c
        stripLoop cset len fuel buf (i + 1) (newlen + 1)
      else stripLoop cset len fuel buf i newlen
    else .ok (buf, newlen)

def yaslstrip (str : Yastrhdr) (cset : Bytes) : Checked Yastrhdr :=
  if str.len = 0 then .ok str
  else do
    let (buf, newlen) ← stripLoop cset str.len (str.len + 2) str.buf 0 0
    let buf ← store buf newlen 0
    .ok ⟨newlen, sizeT (str.free + sizeSub str.len newlen), buf⟩

def yasltolower (str : Yastrhdr) : Checked Yastrhdr := do
  let buf ← replace (fun c => .ok (tolower c)) str.len 0 str.buf
  .ok { str with buf := buf }

def toupper (c : UInt8) : UInt8 := if 97 ≤ c && c ≤ 122 then c - 32 else c

def yasltoupper (str : Yastrhdr) : Checked Yastrhdr := do
  let buf ← replace (fun c => .ok (toupper c)) str.len 0 str.buf
  .ok { str with buf := buf }

/-- `sp` moves up while it is in front of the end, `n` bytes away. -/
def skipFront (buf cset : Bytes) : ℕ → ℕ → Checked ℕ
  | 0, sp => .ok sp
  | n + 1, sp => do
    let c ← load buf sp
    if inSet cset c then skipFront buf cset n (sp + 1) else .ok sp

/-- `ep`, as the offset behind the byte it points to, moves down to the first byte. -/
def skipBack (buf cset : Bytes) : ℕ → Checked ℕ
  | 0 => .ok 0
  | 1 => .ok 1
  | n + 2 => do
    let c ← load buf (n + 1)
    if inSet cset c then skipBack buf cset (n + 1) else .ok (n + 2)

def yasltrim (str : Yastrhdr) (cset : Bytes) : Checked Yastrhdr := do
  let sp ← skipFront str.buf cset str.len 0
  let ep ← skipBack str.buf cset str.len
  let len := ep - sp
  let buf ← (if sp ≠ 0 then move str.buf 0 sp len else .ok str.buf)
  let buf ← store buf len 0
  .ok ⟨len, sizeT (str.free + sizeSub str.len len), buf⟩

def yaslupdatelen (str : Yastrhdr) : Checked Yastrhdr := do
  let reallen ← strlen str.buf
  .ok ⟨reallen, sizeT (str.free + sizeSub str.len reallen), str.buf⟩

def yaslcatlen (m : Malloc) (dest : Yastrhdr) (src : Bytes) (len : ℕ) : Checked Yastrhdr := do
  let curlen := dest.len
  let dest ← yaslMakeRoomFor m dest len
  let s ← read src 0 len
  let buf ← write dest.buf curlen s
  let buf ← store buf (sizeT (curlen + len)) 0
  .ok ⟨sizeT (curlen + len), sizeSub dest.free len, buf⟩

def yaslcat (m : Malloc) (dest : Yastrhdr) (src : Bytes) : Checked Yastrhdr := do
  let len ← strlen src
  yaslcatlen m dest src len

def yaslcatyasl (m : Malloc) (dest src : Yastrhdr) : Checked Yastrhdr :=
  yaslcatlen m dest src.buf src.len

/-- What `vsnprintf` leaves in a buffer: the output cut to the room for it, and a NUL.
Outputs of more than `INT_MAX` bytes, which it refuses, are not considered. -/
def vsnprintf (buf : Bytes) (buflen : ℕ) (out : Bytes) : Checked Bytes :=
  write buf 0 (out.take (buflen - 1) ++ [0])

/-- The loop of `yaslcatvprintf`: the room doubles until the byte before the
last one stays zero. The allocator ends the doubling. -/
def printLoop (m : Malloc) (out : Bytes) : ℕ → ℕ → Checked Bytes
  | 0, _ => .error .abort
  | fuel + 1, buflen =>
    if m.succeeds buflen then do
      let buf ← store ((List.range buflen).map m.junk) (buflen - 2) 0
      let buf ← vsnprintf buf buflen out
      let c ← load buf (buflen - 2)
      if c ≠ 0 then printLoop m out fuel (sizeT (buflen * 2)) else .ok buf
    else .error .null

/-- `out` is what the format and its arguments print; the buffer and the string
come from the allocator one after the other. -/
def yaslcatvprintf (m m' : Malloc) (str : Yastrhdr) (out : Bytes) : Checked Yastrhdr := do
  let buf ← printLoop m out 60 16
  yaslcat m' str buf

end Simvacation.YaslHeap
