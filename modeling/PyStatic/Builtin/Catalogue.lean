/-!
Contract: the names that every Python module knows without importing them.

A class stands after its bases.
-/

namespace PyStatic.Builtin

structure Routine where
  name : String
  returns : Option String
  deriving DecidableEq, Repr

structure ClassEntry where
  name : String
  bases : List String
  methods : List Routine
  deriving DecidableEq, Repr

def valueClasses : List ClassEntry := [
  ⟨"object", [],
    [⟨"__init__", some "NoneType"⟩, ⟨"__str__", some "str"⟩, ⟨"__repr__", some "str"⟩,
     ⟨"__hash__", some "int"⟩, ⟨"__eq__", some "bool"⟩, ⟨"__ne__", some "bool"⟩,
     ⟨"__format__", some "str"⟩, ⟨"__dir__", some "list"⟩, ⟨"__sizeof__", some "int"⟩]⟩,
  ⟨"type", ["object"],
    [⟨"mro", some "list"⟩, ⟨"__subclasses__", some "list"⟩]⟩,
  ⟨"NoneType", ["object"], []⟩,
  ⟨"int", ["object"],
    [⟨"bit_length", some "int"⟩, ⟨"bit_count", some "int"⟩, ⟨"to_bytes", some "bytes"⟩,
     ⟨"conjugate", some "int"⟩, ⟨"as_integer_ratio", some "tuple"⟩]⟩,
  ⟨"bool", ["int"], []⟩,
  ⟨"float", ["object"],
    [⟨"is_integer", some "bool"⟩, ⟨"hex", some "str"⟩, ⟨"conjugate", some "float"⟩,
     ⟨"as_integer_ratio", some "tuple"⟩]⟩,
  ⟨"complex", ["object"],
    [⟨"conjugate", some "complex"⟩]⟩,
  ⟨"str", ["object"],
    [⟨"capitalize", some "str"⟩, ⟨"casefold", some "str"⟩, ⟨"center", some "str"⟩,
     ⟨"count", some "int"⟩, ⟨"encode", some "bytes"⟩, ⟨"endswith", some "bool"⟩,
     ⟨"expandtabs", some "str"⟩, ⟨"find", some "int"⟩, ⟨"format", some "str"⟩,
     ⟨"format_map", some "str"⟩, ⟨"index", some "int"⟩, ⟨"isalnum", some "bool"⟩,
     ⟨"isalpha", some "bool"⟩, ⟨"isascii", some "bool"⟩, ⟨"isdecimal", some "bool"⟩,
     ⟨"isdigit", some "bool"⟩, ⟨"isidentifier", some "bool"⟩, ⟨"islower", some "bool"⟩,
     ⟨"isnumeric", some "bool"⟩, ⟨"isprintable", some "bool"⟩, ⟨"isspace", some "bool"⟩,
     ⟨"istitle", some "bool"⟩, ⟨"isupper", some "bool"⟩, ⟨"join", some "str"⟩,
     ⟨"ljust", some "str"⟩, ⟨"lower", some "str"⟩, ⟨"lstrip", some "str"⟩,
     ⟨"partition", some "tuple"⟩, ⟨"removeprefix", some "str"⟩, ⟨"removesuffix", some "str"⟩,
     ⟨"replace", some "str"⟩, ⟨"rfind", some "int"⟩, ⟨"rindex", some "int"⟩,
     ⟨"rjust", some "str"⟩, ⟨"rpartition", some "tuple"⟩, ⟨"rsplit", some "list"⟩,
     ⟨"rstrip", some "str"⟩, ⟨"split", some "list"⟩, ⟨"splitlines", some "list"⟩,
     ⟨"startswith", some "bool"⟩, ⟨"strip", some "str"⟩, ⟨"swapcase", some "str"⟩,
     ⟨"title", some "str"⟩, ⟨"translate", some "str"⟩, ⟨"upper", some "str"⟩,
     ⟨"zfill", some "str"⟩]⟩,
  ⟨"bytes", ["object"],
    [⟨"decode", some "str"⟩, ⟨"hex", some "str"⟩, ⟨"count", some "int"⟩,
     ⟨"endswith", some "bool"⟩, ⟨"startswith", some "bool"⟩, ⟨"find", some "int"⟩,
     ⟨"join", some "bytes"⟩, ⟨"lower", some "bytes"⟩, ⟨"upper", some "bytes"⟩,
     ⟨"strip", some "bytes"⟩, ⟨"replace", some "bytes"⟩, ⟨"split", some "list"⟩]⟩,
  ⟨"bytearray", ["object"],
    [⟨"decode", some "str"⟩, ⟨"hex", some "str"⟩, ⟨"copy", some "bytearray"⟩]⟩,
  ⟨"memoryview", ["object"],
    [⟨"tobytes", some "bytes"⟩, ⟨"tolist", some "list"⟩]⟩,
  ⟨"list", ["object"],
    [⟨"append", some "NoneType"⟩, ⟨"clear", some "NoneType"⟩, ⟨"copy", some "list"⟩,
     ⟨"count", some "int"⟩, ⟨"extend", some "NoneType"⟩, ⟨"index", some "int"⟩,
     ⟨"insert", some "NoneType"⟩, ⟨"pop", none⟩, ⟨"remove", some "NoneType"⟩,
     ⟨"reverse", some "NoneType"⟩, ⟨"sort", some "NoneType"⟩]⟩,
  ⟨"tuple", ["object"],
    [⟨"count", some "int"⟩, ⟨"index", some "int"⟩]⟩,
  ⟨"dict", ["object"],
    [⟨"clear", some "NoneType"⟩, ⟨"copy", some "dict"⟩, ⟨"fromkeys", some "dict"⟩, ⟨"get", none⟩,
     ⟨"items", none⟩, ⟨"keys", none⟩, ⟨"pop", none⟩, ⟨"popitem", some "tuple"⟩,
     ⟨"setdefault", none⟩, ⟨"update", some "NoneType"⟩, ⟨"values", none⟩]⟩,
  ⟨"set", ["object"],
    [⟨"add", some "NoneType"⟩, ⟨"clear", some "NoneType"⟩, ⟨"copy", some "set"⟩,
     ⟨"difference", some "set"⟩, ⟨"difference_update", some "NoneType"⟩,
     ⟨"discard", some "NoneType"⟩, ⟨"intersection", some "set"⟩, ⟨"isdisjoint", some "bool"⟩,
     ⟨"issubset", some "bool"⟩, ⟨"issuperset", some "bool"⟩, ⟨"pop", none⟩,
     ⟨"remove", some "NoneType"⟩, ⟨"symmetric_difference", some "set"⟩, ⟨"union", some "set"⟩,
     ⟨"update", some "NoneType"⟩]⟩,
  ⟨"frozenset", ["object"],
    [⟨"copy", some "frozenset"⟩, ⟨"difference", some "frozenset"⟩,
     ⟨"intersection", some "frozenset"⟩, ⟨"isdisjoint", some "bool"⟩, ⟨"issubset", some "bool"⟩,
     ⟨"issuperset", some "bool"⟩, ⟨"symmetric_difference", some "frozenset"⟩,
     ⟨"union", some "frozenset"⟩]⟩,
  ⟨"range", ["object"],
    [⟨"count", some "int"⟩, ⟨"index", some "int"⟩]⟩,
  ⟨"slice", ["object"],
    [⟨"indices", some "tuple"⟩]⟩,
  ⟨"property", ["object"], []⟩,
  ⟨"staticmethod", ["object"], []⟩,
  ⟨"classmethod", ["object"], []⟩,
  ⟨"super", ["object"], []⟩,
  ⟨"enumerate", ["object"], []⟩,
  ⟨"zip", ["object"], []⟩,
  ⟨"map", ["object"], []⟩,
  ⟨"filter", ["object"], []⟩,
  ⟨"reversed", ["object"], []⟩]

def exceptionClasses : List ClassEntry := [
  ⟨"BaseException", ["object"],
    [⟨"with_traceback", none⟩, ⟨"add_note", some "NoneType"⟩]⟩,
  ⟨"BaseExceptionGroup", ["BaseException"], []⟩,
  ⟨"Exception", ["BaseException"], []⟩,
  ⟨"ExceptionGroup", ["BaseExceptionGroup", "Exception"], []⟩,
  ⟨"GeneratorExit", ["BaseException"], []⟩,
  ⟨"KeyboardInterrupt", ["BaseException"], []⟩,
  ⟨"SystemExit", ["BaseException"], []⟩,
  ⟨"ArithmeticError", ["Exception"], []⟩,
  ⟨"FloatingPointError", ["ArithmeticError"], []⟩,
  ⟨"OverflowError", ["ArithmeticError"], []⟩,
  ⟨"ZeroDivisionError", ["ArithmeticError"], []⟩,
  ⟨"AssertionError", ["Exception"], []⟩,
  ⟨"AttributeError", ["Exception"], []⟩,
  ⟨"BufferError", ["Exception"], []⟩,
  ⟨"EOFError", ["Exception"], []⟩,
  ⟨"ImportError", ["Exception"], []⟩,
  ⟨"ModuleNotFoundError", ["ImportError"], []⟩,
  ⟨"LookupError", ["Exception"], []⟩,
  ⟨"IndexError", ["LookupError"], []⟩,
  ⟨"KeyError", ["LookupError"], []⟩,
  ⟨"MemoryError", ["Exception"], []⟩,
  ⟨"NameError", ["Exception"], []⟩,
  ⟨"UnboundLocalError", ["NameError"], []⟩,
  ⟨"OSError", ["Exception"], []⟩,
  ⟨"BlockingIOError", ["OSError"], []⟩,
  ⟨"ChildProcessError", ["OSError"], []⟩,
  ⟨"ConnectionError", ["OSError"], []⟩,
  ⟨"BrokenPipeError", ["ConnectionError"], []⟩,
  ⟨"ConnectionAbortedError", ["ConnectionError"], []⟩,
  ⟨"ConnectionRefusedError", ["ConnectionError"], []⟩,
  ⟨"ConnectionResetError", ["ConnectionError"], []⟩,
  ⟨"FileExistsError", ["OSError"], []⟩,
  ⟨"FileNotFoundError", ["OSError"], []⟩,
  ⟨"InterruptedError", ["OSError"], []⟩,
  ⟨"IsADirectoryError", ["OSError"], []⟩,
  ⟨"NotADirectoryError", ["OSError"], []⟩,
  ⟨"PermissionError", ["OSError"], []⟩,
  ⟨"ProcessLookupError", ["OSError"], []⟩,
  ⟨"TimeoutError", ["OSError"], []⟩,
  ⟨"ReferenceError", ["Exception"], []⟩,
  ⟨"RuntimeError", ["Exception"], []⟩,
  ⟨"NotImplementedError", ["RuntimeError"], []⟩,
  ⟨"RecursionError", ["RuntimeError"], []⟩,
  ⟨"StopAsyncIteration", ["Exception"], []⟩,
  ⟨"StopIteration", ["Exception"], []⟩,
  ⟨"SyntaxError", ["Exception"], []⟩,
  ⟨"IndentationError", ["SyntaxError"], []⟩,
  ⟨"TabError", ["IndentationError"], []⟩,
  ⟨"SystemError", ["Exception"], []⟩,
  ⟨"TypeError", ["Exception"], []⟩,
  ⟨"ValueError", ["Exception"], []⟩,
  ⟨"UnicodeError", ["ValueError"], []⟩,
  ⟨"UnicodeDecodeError", ["UnicodeError"], []⟩,
  ⟨"UnicodeEncodeError", ["UnicodeError"], []⟩,
  ⟨"UnicodeTranslateError", ["UnicodeError"], []⟩,
  ⟨"Warning", ["Exception"], []⟩,
  ⟨"BytesWarning", ["Warning"], []⟩,
  ⟨"DeprecationWarning", ["Warning"], []⟩,
  ⟨"FutureWarning", ["Warning"], []⟩,
  ⟨"ImportWarning", ["Warning"], []⟩,
  ⟨"PendingDeprecationWarning", ["Warning"], []⟩,
  ⟨"ResourceWarning", ["Warning"], []⟩,
  ⟨"RuntimeWarning", ["Warning"], []⟩,
  ⟨"SyntaxWarning", ["Warning"], []⟩,
  ⟨"UnicodeWarning", ["Warning"], []⟩,
  ⟨"UserWarning", ["Warning"], []⟩]

def classes : List ClassEntry :=
  valueClasses ++ exceptionClasses

def functions : List Routine := [
  ⟨"__import__", none⟩, ⟨"abs", none⟩, ⟨"aiter", none⟩, ⟨"all", some "bool"⟩, ⟨"anext", none⟩,
  ⟨"any", some "bool"⟩, ⟨"ascii", some "str"⟩, ⟨"bin", some "str"⟩,
  ⟨"breakpoint", some "NoneType"⟩, ⟨"callable", some "bool"⟩, ⟨"chr", some "str"⟩,
  ⟨"compile", none⟩, ⟨"delattr", some "NoneType"⟩, ⟨"dir", some "list"⟩,
  ⟨"divmod", some "tuple"⟩, ⟨"eval", none⟩, ⟨"exec", some "NoneType"⟩, ⟨"format", some "str"⟩,
  ⟨"getattr", none⟩, ⟨"globals", some "dict"⟩, ⟨"hasattr", some "bool"⟩, ⟨"hash", some "int"⟩,
  ⟨"help", none⟩, ⟨"hex", some "str"⟩, ⟨"id", some "int"⟩, ⟨"input", some "str"⟩,
  ⟨"isinstance", some "bool"⟩, ⟨"issubclass", some "bool"⟩, ⟨"iter", none⟩, ⟨"len", some "int"⟩,
  ⟨"locals", some "dict"⟩, ⟨"max", none⟩, ⟨"min", none⟩, ⟨"next", none⟩, ⟨"oct", some "str"⟩,
  ⟨"open", none⟩, ⟨"ord", some "int"⟩, ⟨"pow", none⟩, ⟨"print", some "NoneType"⟩,
  ⟨"repr", some "str"⟩, ⟨"round", none⟩, ⟨"setattr", some "NoneType"⟩, ⟨"sorted", some "list"⟩,
  ⟨"sum", none⟩, ⟨"vars", some "dict"⟩]

def constants : List String := [
  "Ellipsis", "NotImplemented", "__build_class__", "__builtins__", "__debug__", "__doc__",
  "__file__", "__loader__", "__name__", "__package__", "__spec__", "copyright", "credits",
  "exit", "license", "quit"]

end PyStatic.Builtin
