/-! Line ends. -/
namespace ByteAsm.Text

/-- Write every line end, be it `\r\n`, `\r` or `\n`, as `\n`. -/
def unifyNewlines (text : List Char) : List Char := go [] text
where
  go (done : List Char) : List Char → List Char
    | [] => done.reverse
    | '\r' :: '\n' :: rest => go ('\n' :: done) rest
    | '\r' :: rest => go ('\n' :: done) rest
    | c :: rest => go (c :: done) rest

end ByteAsm.Text
