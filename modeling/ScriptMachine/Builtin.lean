namespace ScriptMachine

inductive Builtin where
  | print | println | input | type | len | isNone | toStr | toInt | toFloat | toDecimal | toBytes | fromBytes
  | keys | values | append | extend | pop | range | catch_ | isPanic | finally_ | setReusable | sleep | timeNow
  | asyncSleep | gather | timeout | threadStart | threadJoin | threadIsAlive | threadCancel
  | threadPoolNew | threadPoolSubmit | threadPoolShutdown | futureResult | futureDone
  | channelNew | channelSend | channelReceive | channelIsEmpty
  | coChannelNew | coChannelSend | coChannelReceive | coChannelIsEmpty
  | open_ | readFile | writeFile | fileExists | readFileAsync | writeFileAsync
deriving DecidableEq, Repr

namespace Builtin

def all : List Builtin :=
  [print, println, input, type, len, isNone, toStr, toInt, toFloat, toDecimal, toBytes, fromBytes, keys, values,
    append, extend, pop, range, catch_, isPanic, finally_, setReusable, sleep, timeNow,
    asyncSleep, gather, timeout, threadStart, threadJoin, threadIsAlive, threadCancel,
    threadPoolNew, threadPoolSubmit, threadPoolShutdown, futureResult, futureDone,
    channelNew, channelSend, channelReceive, channelIsEmpty,
    coChannelNew, coChannelSend, coChannelReceive, coChannelIsEmpty,
    open_, readFile, writeFile, fileExists, readFileAsync, writeFileAsync]

def name : Builtin → String
  | print => "print"
  | println => "println"
  | input => "input"
  | type => "type"
  | len => "len"
  | isNone => "is_none"
  | toStr => "to_str"
  | toInt => "to_int"
  | toFloat => "to_float"
  | toDecimal => "to_decimal"
  | toBytes => "to_bytes"
  | fromBytes => "from_bytes"
  | keys => "keys"
  | values => "values"
  | append => "append"
  | extend => "extend"
  | pop => "pop"
  | range => "range"
  | catch_ => "catch"
  | isPanic => "is_panic"
  | finally_ => "finally"
  | setReusable => "set_reusable"
  | sleep => "sleep"
  | timeNow => "time_now"
  | asyncSleep => "async_sleep"
  | gather => "gather"
  | timeout => "timeout"
  | threadStart => "thread_start"
  | threadJoin => "thread_join"
  | threadIsAlive => "thread_is_alive"
  | threadCancel => "thread_cancel"
  | threadPoolNew => "thread_pool_new"
  | threadPoolSubmit => "thread_pool_submit"
  | threadPoolShutdown => "thread_pool_shutdown"
  | futureResult => "future_result"
  | futureDone => "future_done"
  | channelNew => "channel_new"
  | channelSend => "channel_send"
  | channelReceive => "channel_receive"
  | channelIsEmpty => "channel_is_empty"
  | coChannelNew => "co_channel_new"
  | coChannelSend => "co_channel_send"
  | coChannelReceive => "co_channel_receive"
  | coChannelIsEmpty => "co_channel_is_empty"
  | open_ => "open"
  | readFile => "read_file"
  | writeFile => "write_file"
  | fileExists => "file_exists"
  | readFileAsync => "read_file_async"
  | writeFileAsync => "write_file_async"

def ofName? (text : String) : Option Builtin := all.find? (·.name == text)

end Builtin

end ScriptMachine
