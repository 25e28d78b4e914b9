namespace PackScript

/-!
# Prelude

The built-in globals are a script that is compiled ahead of others. It reaches the target through
the built-in operations, see `PackScript.Compile.Intrinsic`.
-/

/-- The lines of the built-in globals. -/
def preludeLines : List String :=
  ["",
   "class Object \x7b",
   "    constructor() \x7b",
   "    \x7d",
   "    toString() \x7b",
   "        return \"[object Object]\";",
   "    \x7d",
   "\x7d",
   "",
   "function convertToString(text) \x7b",
   "    if (typeof text === \"string\") \x7b",
   "        return text;",
   "    \x7d",
   "    return text + \"\";",
   "\x7d",
   "",
   "const console = \x7b",
   "    log: (text) => __run(__singleQuoteConcat(__singleQuoteConcat('tellraw @a \"', convertToString(text)), '\"')),",
   "    warn: (text) => __run(__singleQuoteConcat(__singleQuoteConcat('tellraw @a \x7b\"text\":\"', convertToString(text)), '\",\"color\":\"yellow\"\x7d')),",
   "    error: (text) => __run(__singleQuoteConcat(__singleQuoteConcat('tellraw @a \x7b\"text\":\"', convertToString(text)), '\",\"color\":\"red\"\x7d')),",
   "    info: (text) => __run(__singleQuoteConcat(__singleQuoteConcat('tellraw @a \x7b\"text\":\"', convertToString(text)), '\",\"color\":\"blue\"\x7d')),",
   "    debug: (text) => __run(__singleQuoteConcat(__singleQuoteConcat('tellraw @a \x7b\"text\":\"', convertToString(text)), '\",\"color\":\"aqua\"\x7d')),",
   "\x7d;",
   "",
   "class String \x7b",
   "    constructor(value) \x7b",
   "        if (new.target) \x7b",
   "            this._value = value + \"\";",
   "        \x7d else \x7b",
   "            return value + \"\";",
   "        \x7d",
   "    \x7d",
   "    repeat(count) \x7b",
   "        let result = \"\";",
   "        for (let i = 0; i < count; i++) \x7b",
   "            result += this._value;",
   "        \x7d",
   "        return result;",
   "    \x7d",
   "\x7d",
   "",
   "class Promise \x7b",
   "    constructor(executor) \x7b",
   "        __initPromise(this);",
   "        executor(__bind(function (value) \x7b",
   "            __resolvePromise(this, value);",
   "        \x7d, this));",
   "    \x7d",
   "    then(listener) \x7b",
   "        __thenPromise(this, listener);",
   "    \x7d",
   "\x7d",
   "",
   "function setTimeout(handler, timeout) \x7b",
   "    __schedule(handler, timeout / 50);",
   "\x7d",
   "",
   "function setInterval(handler, timeout) \x7b",
   "    __schedule(() => \x7b",
   "        handler();",
   "        setInterval(handler, timeout);",
   "    \x7d, timeout / 50);",
   "\x7d",
   ""]

/-- The built-in globals. -/
def preludeText : String :=
  "\n".intercalate preludeLines

end PackScript
